import Blockflow.Proofs.Graph.Evaluation
import Blockflow.Proofs.Graph.Growth

/-!
# Settled circuits

A circuit is instantiated in an empty graph, which is settled then. Its parameter nodes are those of
the root, in their places, and everything else was made by conforming assemblers. All this only
extends the store.
-/

namespace Blockflow

open List Effect Graph Native

/-- Inner nodes may be made, and any node may be wired. -/
def EditRules.inner (P : Native → Prop) : EditRules := ⟨Behavior.Inner P, fun _ _ => True⟩

lemma EditRules.inner_expanding (P : Native → Prop) : (inner P).Expanding :=
  ⟨fun _ => trivial, trivial, fun _ => trivial, fun _ _ => trivial, fun _ => trivial,
    fun _ _ => trivial⟩

/-- The graph that a circuit settles to, with its root and the store afterwards; nothing is wrong
with the definition. -/
structure Settled (env : Environment) (limit : Nat) (name : String) (before after : Store)
    (g : Graph) (root : Root) : Prop where
  reached : ∃ w, (Expand.instantiate env.library name []).run { store := before } = (.ok root, w) ∧
    (w.settle env limit).2 = { graph := g, store := after }
  sound : g.diagnostics.definitions = []

namespace Expand

lemma addParams_facts (owner : Handle) (indices : List Nat) (wf : w.graph.nodes.WellFormed)
    (ran : (indices.mapM fun i => addOwned (.param i) 0 owner).run w = (.ok params, w')) :
    w'.graph.nodes.WellFormed ∧ SameNotes w.graph w'.graph ∧ w'.store = w.store ∧
      params.length = indices.length ∧ ∀ id b, behaviorOf w'.graph id = some b ↔
      behaviorOf w.graph id = some b ∨
        ∃ place i : Nat, indices[place]? = some i ∧ params[place]? = some id ∧ b = .param i := by
  induction indices generalizing w params with
  | nil =>
    cases ran
    exact ⟨wf, ⟨rfl, rfl⟩, rfl, rfl, fun _ _ => by simp⟩
  | cons i indices ih =>
    rw [mapM_cons] at ran
    obtain ⟨new, u, first, ran⟩ := run_bind_eq_ok.mp ran
    obtain ⟨others, v, rest, ran⟩ := run_bind_eq_ok.mp ran
    cases ran
    have added : (Except.ok (w.graph.addNode (.param i) 0 (some owner)).1,
        { w with graph := (w.graph.addNode (.param i) 0 (some owner)).2 }) = (Except.ok new, u) :=
        first
    obtain ⟨isNew, rfl⟩ := Prod.mk.inj added
    obtain rfl := Except.ok.inj isNew
    obtain ⟨wf', fresh, found, -⟩ := addNode_facts wf (.param i) 0 (some owner)
    obtain ⟨wf'', notes, store, length, behaviors⟩ := ih wf' rest
    refine ⟨wf'', (addNode_notes ..).trans notes, store, congrArg (· + 1) length, fun id b => ?_⟩
    have absent : behaviorOf w.graph (w.graph.addNode (.param i) 0 (some owner)).1 = none := by
      rw [behaviorOf, Option.map_eq_none_iff, Option.eq_none_iff_forall_ne_some]
      exact fun n live => fresh (.inl (contains_iff.mpr ⟨n, live⟩))
    have added : behaviorOf (w.graph.addNode (.param i) 0 (some owner)).2 id = some b ↔
        behaviorOf w.graph id = some b ∨
          id = (w.graph.addNode (.param i) 0 (some owner)).1 ∧ b = .param i := by
      rw [behaviorOf, found]
      by_cases isNew : id = (w.graph.addNode (.param i) 0 (some owner)).1
      · rw [isNew, absent]
        simp [Node.make, eq_comm]
      · simp [isNew, behaviorOf]
    rw [behaviors, added, or_assoc]
    refine or_congr_right ⟨?_, ?_⟩
    · rintro (⟨rfl, rfl⟩ | ⟨place, i', one, two, rfl⟩)
      · exact ⟨0, i, rfl, rfl, rfl⟩
      · exact ⟨place + 1, i', one, two, rfl⟩
    · rintro ⟨place, i', one, two, rfl⟩
      cases place with
      | zero =>
        cases one
        cases two
        exact .inl ⟨rfl, rfl⟩
      | succ place => exact .inr ⟨place, i', one, two, rfl⟩

lemma addOutputs_editing {P : Native → Prop} {start : Workspace} (wf : start.graph.nodes.WellFormed)
    (owner : Handle) (names : List String) : Editing (.inner P) start (names.mapM fun name => do
      let n ← addOwned .pass 1 owner
      Edit.modifyGraph (·.addPendingLink n 0 name)
      return n) :=
  .mapM (fun name => Editing.addNode (EditRules.inner_expanding P) wf
    (show (EditRules.inner P).Makes .pass from trivial) 1 (some owner) fun _ wires =>
    .bind (Editing.addPendingLink wires 0 name) fun _ => .pure _) names

lemma instantiate_growing (P : Native → Prop) {name : String} {store : Store}
    {root : Root} {w : Workspace} (ran : (instantiate lib name []).run { store } = (.ok root, w)) :
    store.Extends w.store ∧ ∃ first, w.Growing (Behavior.Inner P) first ∧
      ∀ id b, behaviorOf first id = some b ↔ ∃ i, root.params[i]? = some id ∧ b = .param i := by
  rw [instantiate] at ran
  split at ran
  · cases ran
  next c _ =>
    obtain ⟨e, u, made, rest⟩ := run_bind_eq_ok.mp ran
    cases (Prod.mk.inj made).2
    obtain ⟨id, u, placed, roots⟩ := run_bind_eq_ok.mp rest
    obtain ⟨params, v, addedParams, rest'⟩ := run_bind_eq_ok.mp roots
    obtain ⟨outs, v', addedOutputs, returned⟩ := run_bind_eq_ok.mp rest'
    cases placed
    obtain ⟨wf, notes, sameStore, length, behaviors⟩ :=
      addParams_facts _ _ Arena.wellFormed_empty addedParams
    have edits := (addOutputs_editing (P := P) wf _ _ v .refl).of_ok addedOutputs
    cases returned
    refine ⟨?_, v.graph, ⟨(edits.grown (.refl wf)).of_nodes rfl, ?_⟩, fun n b => ?_⟩
    · have grown := edits.extends'
      rw [sameStore] at grown
      exact grown
    · show ∀ d ∈ v'.graph.diagnostics.entries, d.Placed
      rw [edits.notes.2, notes.2]
      intro d mem
      cases mem
    · rw [behaviors]
      constructor
      · rintro (absent | ⟨place, i, one, two, rfl⟩)
        · cases absent
        · obtain ⟨-, rfl⟩ := List.getElem?_eq_some_iff.mp one
          exact ⟨place, two, by simp⟩
      · rintro ⟨i, found, rfl⟩
        have inside : i < c.inputs.length := by
          rw [length_range] at length
          exact length ▸ lt_of_getElem? found
        exact .inr ⟨i, i, by rw [getElem?_range inside], found, rfl⟩

lemma instantiate_store (lib : Library) (name : String) (args : List String) (w : Workspace) :
    ((instantiate lib name args).run w).2.store = w.store := by
  have onGraph : ∀ {α : Type} (op : Graph → α × Graph), (Edit.onGraph op).Keeps fun w' =>
      w'.store = w.store :=
    fun _ _ eq => eq
  have mapM : ∀ {α β : Type} {f : α → Edit β} (items : List α),
      (∀ item, (f item).Keeps fun w' => w'.store = w.store) →
      (items.mapM f).Keeps fun w' => w'.store = w.store := by
    intro α β f items kept
    induction items with
    | nil => exact Keeps.pure _
    | cons item items ih =>
      rw [mapM_cons]
      exact (kept item).bind fun _ => ih.bind fun _ => Keeps.pure _
  have kept : (instantiate lib name args).Keeps fun w' => w'.store = w.store := by
    rw [instantiate]
    split
    · exact fun _ eq => eq
    · exact .bind (.ofExcept _) fun _ => (onGraph _).bind fun _ =>
        (mapM _ fun _ => onGraph _).bind fun _ =>
        (mapM _ fun _ => (onGraph _).bind fun _ => (onGraph _).bind fun _ => .pure _).bind fun _ =>
          (onGraph _).bind fun _ => .pure _
  have ends := kept w rfl
  rw [Ends] at ends
  rcases outcome : (instantiate lib name args).run w with ⟨d | root, w'⟩ <;>
      rw [outcome] at ends <;>
    exact ends

lemma instantiate_fails (lib : Library) (name : String) (args : List String) :
    (instantiate lib name args).FailsWith fun d =>
      (∃ name, d.problem = .unknownCircuit name) ∨ ∃ link name, d.problem =
        .duplicateLink link name := by
  have onGraph : ∀ {α : Type} (op : Graph → α × Graph), (Edit.onGraph op).FailsWith fun d =>
      (∃ name, d.problem = .unknownCircuit name) ∨ ∃ link name, d.problem =
        .duplicateLink link name :=
    fun _ _ => .ok _
  rw [instantiate]
  split
  · exact .fail (.inl ⟨name, rfl⟩)
  next c _ =>
    refine Effect.FailsWith.bind (.ofExcept ?_) fun e => (onGraph _).bind fun id =>
      (Effect.FailsWith.mapM (fun _ => onGraph _) _).bind fun params =>
        (Effect.FailsWith.mapM (fun _ => (onGraph _).bind fun _ => (onGraph _).bind fun _ =>
          .pure _) _).bind
          fun outs => (onGraph _).bind fun _ => .pure _
    refine FailsWith.bind (FailsWith.foldlM (fun links ⟨link, target⟩ => ?_) _ _) fun _ => .ok _
    show FailsWith _ (Expansion.declare c links link target)
    rw [Expansion.declare]
    split
    · exact .ok _
    · split
      · exact .error (.inr ⟨link, c.name, rfl⟩)
      · exact .ok _

end Expand

lemma Workspace.extending_settling (env : Environment) (first : Graph) (arePure : env.methods.Pure)
    (natives : ∀ id native, behaviorOf first id = some (.op native) → native.Pure) (base : Store) :
    Settling (.inner Pure) env fun w =>
      w.Growing (Behavior.Inner Pure) first ∧ base.Extends w.store :=
  have growing := growing_settling (.inner Pure) env first
  { wellFormed := fun holds => growing.wellFormed holds.1
    edits := fun holds edits => ⟨growing.edits holds.1 edits, holds.2.trans edits.extends'⟩
    connect := fun id pin src holds => ⟨growing.connect id pin src holds.1, holds.2⟩
    clear := fun id holds => ⟨growing.clear id holds.1, holds.2⟩
    pop := fun worklist holds => ⟨growing.pop worklist holds.1, holds.2⟩
    idle := fun id holds => ⟨growing.idle id holds.1, holds.2⟩
    evaluate := by
      intro w id n holds live store ran
      refine ⟨growing.evaluate holds.1 live store ran, holds.2.trans ?_⟩
      have steady := evaluate_steady arePure w.graph id n fun native computes => by
        have found : behaviorOf w.graph id = some (.op native) := by
          rw [behaviorOf, live, Option.map_some, computes]
        exact (holds.1.grown.made found).elim (natives id native) fun inner => inner
      exact ran ▸ steady.grows.extends' w.store
    conclude := fun id result holds => ⟨growing.conclude id result holds.1, holds.2⟩
    giveUp := fun limit holds => ⟨growing.giveUp limit holds.1, holds.2⟩ }

lemma Expand.settle_extends (env : Environment) (conforms : env.library.Conforms (.inner Pure))
    (arePure : env.methods.Pure) {name : String} {root : Root} {w : Workspace}
    (instantiated : (instantiate env.library name []).run { store } = (.ok root, w)) (limit : Nat) :
    store.Extends (w.settle env limit).2.store := by
  obtain ⟨extends', first, growing, params⟩ := instantiate_growing Pure instantiated
  have settling := Workspace.extending_settling env first arePure (fun id native found => by
    obtain ⟨_, _, isParam⟩ := (params id _).mp found
    cases isParam) store
  exact (settling.settle (EditRules.inner_expanding _) conforms limit ⟨growing, extends'⟩).2

namespace Settled

variable {P : Native → Prop} {env : Environment} {limit : Nat} {name : String}
  {before after : Store}
  {g : Graph} {root : Root}

variable (settled : Settled env limit name before after g root)
  (conforms : env.library.Conforms (.inner P))
include settled conforms

lemma growing : ∃ first, Grown (Behavior.Inner P) first g ∧
      ∀ id b, behaviorOf first id = some b ↔ ∃ i, root.params[i]? = some id ∧ b = .param i := by
  obtain ⟨w, instantiated, reached⟩ := settled.reached
  obtain ⟨-, first, growing, params⟩ := Expand.instantiate_growing P instantiated
  have grown := (Workspace.growing_settling (.inner P) env first).settle
    (EditRules.inner_expanding P) conforms limit growing
  rw [reached] at grown
  exact ⟨first, grown.grown, params⟩

/-- The parameters of a settled circuit are those of its root, in their places. -/
lemma param_iff {id : Handle} : behaviorOf g id = some (.param i) ↔ root.params[i]? = some id := by
  obtain ⟨first, grown, params⟩ := settled.growing conforms
  constructor
  · intro found
    rcases grown.made found with was | inner
    · obtain ⟨i', place, eq⟩ := (params _ _).mp was
      cases eq
      exact place
    · exact inner.elim
  · exact fun place => grown.kept ((params _ _).mpr ⟨i, place, rfl⟩)

lemma native {id : Handle} {native : Native} (found : behaviorOf g id = some (.op native)) :
    P native := by
  obtain ⟨first, grown, params⟩ := settled.growing conforms
  rcases grown.made found with was | inner
  · obtain ⟨_, _, eq⟩ := (params _ _).mp was
    cases eq
  · exact inner

end Settled

end Blockflow
