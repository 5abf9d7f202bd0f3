import Blockflow.Proofs.Graph.Operations
import Blockflow.Proofs.Graph.Updates

/-!
# Settled graphs are consistent

Once nothing waits to be evaluated, every node that waits for no link shows what its evaluation
gives on the outputs of its sources. This holds after any operations for a node all of whose sources
show a value. It holds for all nodes if no operation leaves a pin silently: a pin is connected to a
node without a value only if its own node waits or the pin read no value before, and nodes are taken
out only where pass-through nodes show a value only if their sources do.
-/

namespace Blockflow

open Graph List Node Operation Option

variable {shows : Option Value → Option Value → Prop} {P : Native → Prop} {strict : Prop}
  {methods : Methods}
  {w : Workspace}

/-! ## Taking nodes out -/

/-- A pass-through node shows a value only if its source does, and a node that waits for a link
waits to be evaluated. -/
structure Graph.Flowing (g : Graph) : Prop where
  passes : ∀ {id n src}, g.node? id = some n → n.isPass →
    n.source? 0 = some src → g.contains src → n.output.isSome →
    (g.output? src).isSome
  settled : ∀ {id n}, g.node? id = some n → n.queued = false → n.pending = []

namespace Graph.Flowing

variable {g : Graph}

lemma output?_unlink {id : Handle} (live : g.node? id = some removed)
    {other : Handle} (stays : other ≠ id) : (g.unlink id).output? other = g.output? other := by
  obtain ⟨between, keeps, nodes⟩ := node?_unlink live
  rw [← keeps.output?_eq, output?, output?, nodes, if_neg stays]

lemma unlink (flowing : g.Flowing) (wired : g.Wired) (id : Handle) : (g.unlink id).Flowing := by
  cases live : g.node? id with
  | none =>
    rw [Graph.unlink, live]
    exact flowing
  | some removed =>
    refine ⟨fun {other after src} live' isPass reads there shown => ?_,
      fun {other after} live' idle => ?_⟩
    · obtain ⟨stays, before, was, bypassed⟩ := wired.unlink_nodes live live'
      obtain ⟨isOther, there'⟩ := (contains_unlink live src).mp there
      rw [output?_unlink live isOther]
      have isPass' : before.isPass := by
        rw [Node.isPass, Node.kind, ← bypassed.kept.behavior]
        exact isPass
      have shown' : before.output.isSome := bypassed.kept.output ▸ shown
      rw [source?, bypassed.inputs, getElem?_map] at reads
      cases first : before.inputs[0]? with
      | none =>
        rw [first] at reads
        cases reads
      | some src' =>
        rw [first] at reads
        have reads' : (if src' = some id then g.live? (replacement? removed) else src') =
            some src :=
          reads
        split at reads'
        next isId =>
          -- the node read the removed one, which shows a value and thus reads a node with a value
          subst isId
          have shows' := flowing.passes was isPass' (by rw [source?, first]; rfl)
            (contains_iff.mpr ⟨removed, live⟩) shown'
          rw [output?, live] at shows'
          obtain ⟨isReplacement, -⟩ := filter_eq_some_iff.mp reads'
          rw [replacement?] at isReplacement
          split at isReplacement
          next isPass'' => exact flowing.passes live isPass'' isReplacement there' shows'
          next => cases isReplacement
        next =>
          exact flowing.passes was isPass' (by rw [source?, first]; exact reads') there' shown'
    · obtain ⟨-, before, was, bypassed⟩ := wired.unlink_nodes live live'
      have none := flowing.settled was (idle_of_queued bypassed.kept.queued idle)
      exact sublist_nil.mp (none ▸ bypassed.pending)

lemma addPending (flowing : g.Flowing) (id : Handle) (pin : Nat) (pending : Pending) :
    (g.addPending id pin pending).Flowing := by
  have keeps := Keeps.addPending g id pin pending
  have edges := SameEdges.addPending g id pin pending
  refine ⟨fun {other after src} live isPass reads there shown => ?_,
    fun {other after} live idle => ?_⟩
  · obtain ⟨before, was, kept⟩ := keeps.earlier live
    obtain ⟨before', was', inputs, -⟩ := edges.earlier live
    cases was.symm.trans was'
    rw [keeps.output?_eq]
    refine flowing.passes was ?_ ?_ ((keeps.contains_iff _).mp there) (kept.output ▸ shown)
    · rw [Node.isPass, Node.kind, ← kept.behavior]
      exact isPass
    · rw [source?, ← inputs]
      exact reads
  · rw [Graph.addPending, node?_markDirty] at live
    split at live
    · obtain ⟨before, -, rfl⟩ := map_eq_some_iff.mp live
      cases idle
    next differs =>
      rw [node?_modifyNode, if_neg differs] at live
      exact flowing.settled live idle

end Graph.Flowing

/-- Taking out a node. If what takes its place shows no value, its readers are not woken. -/
lemma SoundFor.unlink (sound : SoundFor shows P strict methods none w)
    (flowing : strict → w.graph.Flowing)
    (id : Handle) : SoundFor shows P strict methods none { w with graph := w.graph.unlink id } := by
  cases live : w.graph.node? id with
  | none =>
    rw [Graph.unlink, live]
    exact sound
  | some removed =>
    obtain ⟨previews, diagnostics⟩ := unlink_notes live
    refine ⟨sound.wired.unlink id, ?_, ?_, (Waits.marking none).unlink id sound.waits, ?_⟩
    · intro other after native live' computes
      obtain ⟨-, before, was, bypassed⟩ := sound.wired.unlink_nodes live live'
      exact sound.natives was (bypassed.kept.behavior.symm.trans computes)
    · intro other after live'
      obtain ⟨-, before, was, bypassed⟩ := sound.wired.unlink_nodes live live'
      exact (sound.pinsOnce was).sublist (bypassed.pending.map _)
    · intro other after live' _ idle settled
      obtain ⟨stays, before, was, bypassed⟩ := sound.wired.unlink_nodes live live'
      have idle' := idle_of_queued bypassed.kept.queued idle
      have preview : (w.graph.unlink id).previews.lookup other = w.graph.previews.lookup other := by
        rw [previews, lookup_filter_ne, if_neg stays]
      have records : w.graph.Records other → (w.graph.unlink id).Records other := fun known =>
        records_clear stays diagnostics known rfl
      have outputs : ∀ {src}, src ≠ id → (w.graph.unlink id).output? src = w.graph.output? src :=
        Graph.Flowing.output?_unlink live
      have gone : (w.graph.unlink id).output? id = none := by
        obtain ⟨between, -, nodes⟩ := node?_unlink live
        rw [output?, nodes, if_pos rfl]
        rfl
      by_cases reader : ∃ pin, before.source? pin = some id
      · obtain ⟨pin, reads⟩ := reader
        -- what takes the place of the node shows no value, since the reader is not woken
        obtain ⟨target, isTarget, silent⟩ : ∃ target,
            w.graph.live? (replacement? removed) = some target ∧ w.graph.output? target = none := by
          have unready : ¬w.graph.readyFor (replacement? removed) := by
            intro ready
            cases idle.symm.trans (bypassed.queued ready pin reads)
          rw [readyFor] at unready
          cases found : w.graph.live? (replacement? removed) with
          | none =>
            rw [found] at unready
            exact absurd rfl unready
          | some target =>
            rw [found] at unready
            exact ⟨target, rfl, by simpa using unready⟩
        have silent' : (w.graph.unlink id).output? target = none := by
          by_cases eq : target = id
          · rw [eq]
            exact gone
          · rw [outputs eq]
            exact silent
        by_cases isStrict : strict
        · have flows := flowing isStrict
          have removedSilent : w.graph.output? id = none := by
            obtain ⟨isReplacement, there⟩ := filter_eq_some_iff.mp isTarget
            rw [replacement?] at isReplacement
            split at isReplacement
            next isPass =>
              rw [output?, live, bind_some]
              cases shown : removed.output with
              | none => rfl
              | some v =>
                have shows' := flows.passes live isPass isReplacement there (by rw [shown]; rfl)
                rw [silent] at shows'
                cases shows'
            next => cases isReplacement
          rcases sound.fine was (some_ne_none _) idle'
              (flows.settled was idle') with current | ⟨lax, -⟩
          · refine .inl (current.transfer bypassed.kept.behavior ?_ preview bypassed.kept.output
              records (.refl _))
            rw [readings, bypassed.inputs, List.map_map]
            refine map_congr_left fun src _ => ?_
            show (if src = some id then w.graph.live? (replacement? removed) else src).bind
              (w.graph.unlink id).output? = src.bind w.graph.output?
            split
            next isId =>
              rw [isId, isTarget, bind_some, bind_some, silent', removedSilent]
            next differs =>
              cases src with
              | none => rfl
              | some src => exact outputs fun eq => differs (congrArg some eq)
          · exact absurd isStrict lax
        · refine .inr ⟨isStrict, pin, target, ?_, silent'⟩
          have isSource := join_eq_some_iff.mp reads
          rw [source?, bypassed.inputs, getElem?_map, isSource, map_some, if_pos rfl, isTarget]
          rfl
      · have unread : ∀ pin, before.source? pin ≠ some id := fun pin reads => reader ⟨pin, reads⟩
        have inputs : after.inputs = before.inputs := by
          rw [bypassed.inputs]
          refine (map_congr_left fun src mem => ?_).trans (map_id _)
          refine if_neg fun isId => ?_
          subst isId
          exact reader (mem_inputs_iff.mp mem)
        refine (sound.fine was (some_ne_none _) idle'
          ((bypassed.waiting unread).symm.trans settled)).transfer
          bypassed.kept.behavior inputs (fun src mem => outputs ?_) preview bypassed.kept.output
            records (.refl _)
        rintro rfl
        exact reader (mem_inputs_iff.mp mem)

lemma sound_dismantling (store : Store) : Dismantling fun g =>
    Sound P strict methods none { graph := g, store } ∧ (strict → g.Flowing) where
  unlink id holds :=
    ⟨holds.1.unlink holds.2 id, fun isStrict => (holds.2 isStrict).unlink holds.1.wired id⟩
  expansions expansions holds :=
    ⟨holds.1.expansions expansions, fun isStrict => ⟨(holds.2 isStrict).passes,
    (holds.2 isStrict).settled⟩⟩
  addPending id pin pending holds :=
    ⟨holds.1.addPending id pin pending,
      fun isStrict => (holds.2 isStrict).addPending id pin pending⟩
  note {_ d} _ holds :=
    ⟨holds.1.push d, fun isStrict => ⟨(holds.2 isStrict).passes, (holds.2 isStrict).settled⟩⟩

/-! ## Operations -/

namespace Operation

def Uses (P : Native → Prop) : Operation → Prop
  | addNode b _ => b.Uses P
  | _ => True

/-- No pin loses a value unnoticed: a pin is connected to a node without a value only if its own
node waits to be evaluated, or waits for nothing and reads no value at the pin; and nodes are taken
out only where values pass through. -/
def Careful (w : Workspace) : Operation → Prop
  | connect id pin src => ∀ n, w.graph.node? id = some n → n.queued = false →
      w.graph.readyFor src = false →
      n.pending = [] ∧ pin < n.inputs.length ∧ w.graph.inputValue? n pin = none
  | remove _ | redefine _ => w.graph.Flowing
  | _ => True

end Operation

lemma Sound.apply (arePure : ∀ native, P native → native.Pure) (all : env.methods.All P)
    (conforms : env.library.Conforms (.fresh P)) {op : Operation} (uses : op.Uses P)
    (careful : strict → op.Careful w) (sound : Sound P strict env.methods none w) :
    Sound P strict env.methods none (op.apply env w) := by
  cases op with
  | addNode b inputs => exact sound.addNode uses inputs none
  | connect id pin src =>
    exact sound.connect id pin src fun isStrict n live _ => careful isStrict n live
  | setPreview param v => exact sound.setPreview param v
  | remove id => exact ((sound_dismantling w.store).remove id ⟨sound, careful⟩).1
  | redefine name =>
    exact ((sound_dismantling w.store).redefine env.library.circuits name ⟨sound, careful⟩).1
  | instantiate name args =>
    exact sound.edits
      (Expand.instantiate_editing (EditRules.fresh_expanding P) sound.wired.wellFormed
      (fun _ _ => nofun) (fun _ => nofun) env.library name args).edits
  | tick steps => exact sound.tick arePure all conforms steps
  | settle limit => exact sound.settle arePure all conforms limit

/-- Every graph that operations lead to is sound. -/
lemma Reached.sound (arePure : ∀ native, P native → native.Pure) (all : methods.All P)
    (lawful : ∀ env w op, Allowed env w op → env.methods = methods ∧
      env.library.Conforms (.fresh P) ∧ op.Uses P)
    (careful : strict → ∀ env w op, Allowed env w op → op.Careful w)
    (reached : Reached Allowed store w) : Sound P strict methods none w := by
  induction reached with
  | start => exact .empty ..
  | @step env w op _ allowed ih =>
    obtain ⟨rfl, conforms, uses⟩ := lawful env w op allowed
    exact ih.apply arePure all conforms uses fun isStrict => careful isStrict env w op allowed

/-- The output of a node is what evaluating it now gives, or nothing and a record if that fails. -/
def Consistent (P : Native → Prop) (methods : Methods) (w : Workspace) (id : Handle) (n : Node) :
    Prop :=
  match ((w.graph.evaluate methods id n).run w.store).1 with
  | .ok now => ∃ made, Shows n.output made ∧ OutputAlike made now
  | .error _ => n.output = none ∧ ((∀ native, P native → native.Placeless) → w.graph.Records id)

lemma UpToDateFor.consistent (arePure : ∀ native, P native → native.Pure)
    (all : methods.All P) {id : Handle}
    (natives : ∀ native, n.behavior = .op native → P native)
    (current : UpToDateFor Shows P methods w id n) : Consistent P methods w id n := by
  obtain ⟨earlier, known, shows'⟩ := current
  have steady :=
    evaluate_steady (fun entry mem method among => arePure _ (all entry mem method among))
    w.graph id n fun native computes => arePure _ (natives native computes)
  have same := steady.agree earlier w.store known
  rw [Consistent]
  rcases before : ((w.graph.evaluate methods id n).run earlier).1 with d | made <;>
    rcases now : ((w.graph.evaluate methods id n).run w.store).1 with d' | made' <;>
    rw [before] at shows' <;> rw [before, now] at same <;> cases same
  · exact shows'
  next alike => exact ⟨made, shows', alike⟩

/-- In every graph that operations lead to and that is settled, the output of a node without pending
links is what its evaluation gives on the outputs of its sources, if all its sources show a value,
or if no operation made a pin lose a value unnoticed. -/
theorem settled_outputs_agree {Allowed : Environment → Workspace → Operation → Prop} {store : Store}
    (arePure : ∀ native, P native → native.Pure) (all : methods.All P)
    (lawful : ∀ env w operation, Allowed env w operation →
      env.methods = methods ∧ env.library.Conforms (.fresh P) ∧ operation.Uses P)
    (reached : Reached Allowed store w) (settled : w.graph.isSettled = true)
    {id : Handle} {node : Node}
    (live : w.graph.node? id = some node) (linked : node.pending = [])
    (noticed : (∀ pin source, node.source? pin = some source →
      (w.graph.output? source).isSome = true) ∨
      ∀ env w operation, Allowed env w operation → operation.Careful w) :
    Consistent P methods w id node := by
  rcases noticed with shown | careful
  · have sound : Sound P False methods none w := reached.sound arePure all lawful nofun
    rcases sound.fine live nofun (sound.unqueued settled live) linked with current | ⟨-, pin,
        source, reads, silent⟩
    · exact current.consistent arePure all fun native => sound.natives live
    · have shows' := shown pin source reads
      rw [silent] at shows'
      cases shows'
  · have sound : Sound P True methods none w := reached.sound arePure all lawful fun _ => careful
    exact (sound.current settled live linked).consistent arePure all fun native =>
      sound.natives live

/-- A node and a pass-through node behind it. -/
def passedOn (behavior : Behavior) : List Operation :=
  [.addNode behavior 0, .addNode .pass 1, .connect ⟨1, 0⟩ 0 (some ⟨0, 0⟩), .settle 100]

lemma passedOn_uses {behavior : Behavior} (uses : behavior.Uses Native.Pure)
    (member : operation ∈ passedOn behavior) : operation.Uses Native.Pure := by
  simp only [passedOn, mem_cons, not_mem_nil, or_false] at member
  rcases member with rfl | rfl | rfl | rfl
  · exact uses
  · exact fun _ => nofun
  · trivial
  · trivial

lemma Library.builtin_conforms_fresh : Library.builtin.Conforms (.fresh Native.Pure) :=
  Library.builtin_conforms (EditRules.fresh_expanding _) (fun behavior inner native computes => by
    rw [computes] at inner
    exact inner) Operators.natives_pure

/-- The operations of `passedOn`, where no pin may lose a value unnoticed. -/
def PassingOn (behavior : Behavior) (env : Environment) (w : Workspace) (operation : Operation) :
    Prop :=
  env = { library := .builtin } ∧ operation ∈ passedOn behavior ∧ operation.Careful w

/-- The node behind the parameter is connected while it has no value to lose. -/
lemma passedOn_careful : (Operation.connect ⟨1, 0⟩ 0 (some ⟨0, 0⟩)).Careful
    (applyAll [.addNode (.param 0) 0, .addNode .pass 1]) := by
  have shape : ((applyAll [.addNode (.param 0) 0, .addNode .pass 1]).graph.node? ⟨1, 0⟩).all
      (fun node => node.pending.isEmpty && decide (0 < node.inputs.length) &&
        ((applyAll [.addNode (.param 0) 0, .addNode .pass 1]).graph.inputValue? node
          0).isNone) = true := by
    decide +kernel
  intro node live _ _
  rw [live] at shape
  simp only [Option.all_some, Bool.and_eq_true, List.isEmpty_iff, decide_eq_true_eq,
    Option.isNone_iff_eq_none] at shape
  exact ⟨shape.1.1, shape.1.2, shape.2⟩

lemma passedOn_reached : Reached (PassingOn (.param 0)) {} (applyAll (passedOn (.param 0))) := by
  have step : ∀ {w} operation, operation ∈ passedOn (.param 0) → operation.Careful w →
      Reached (PassingOn (.param 0)) {} w →
      Reached (PassingOn (.param 0)) {} (operation.apply { library := .builtin } w) :=
    fun _ member careful reached => .step reached ⟨rfl, member, careful⟩
  exact step (.settle 100) (.tail _ (.tail _ (.tail _ (.head _)))) trivial
    (step _ (.tail _ (.tail _ (.head _))) passedOn_careful
      (step (.addNode .pass 1) (.tail _ (.head _)) trivial
        (step (.addNode (.param 0) 0) (.head _) trivial .start)))

/-- Behind a constant, whose value the node shows, and behind a parameter, which has none. -/
theorem passedOn_agrees :
    (∃ w node, Reached (fun env _ operation => env = { library := .builtin } ∧
        operation ∈ passedOn (.const default)) {} w ∧
      w.graph.isSettled = true ∧ w.graph.node? ⟨1, 0⟩ = some node ∧ node.output.isSome = true ∧
      Consistent Native.Pure {} w ⟨1, 0⟩ node) ∧
    ∃ w node, Reached (PassingOn (.param 0)) {} w ∧ w.graph.isSettled = true ∧
      w.graph.node? ⟨1, 0⟩ = some node ∧ w.graph.inputValue? node 0 = none ∧
      Consistent Native.Pure {} w ⟨1, 0⟩ node := by
  refine ⟨?_, ?_⟩
  · have reached : Reached (fun env _ operation => env = { library := .builtin } ∧
        operation ∈ passedOn (.const default)) {} (applyAll (passedOn (.const default))) :=
      .all _ fun _ _ member => ⟨rfl, member⟩
    obtain ⟨node, live, shape⟩ : ∃ node,
        (applyAll (passedOn (.const default))).graph.node? ⟨1, 0⟩ = some node ∧
          (node.pending.isEmpty && node.output.isSome && node.inputs.all fun source =>
            (source.bind (applyAll (passedOn (.const default))).graph.output?).isSome) = true :=
      (Option.any_eq_true _ _).mp (by decide +kernel)
    simp only [Bool.and_eq_true, List.isEmpty_iff, List.all_eq_true] at shape
    obtain ⟨⟨linked, shown⟩, sources⟩ := shape
    refine ⟨_, node, reached, by decide +kernel, live, shown, ?_⟩
    refine settled_outputs_agree (fun _ isPure => isPure) (fun _ member => by
      cases member) ?_ reached
      (by decide +kernel) live linked (.inl fun pin source reads => ?_)
    · rintro env w operation ⟨rfl, member⟩
      exact ⟨rfl, Library.builtin_conforms_fresh, passedOn_uses (fun _ computes => by
        cases computes) member⟩
    · exact sources (some source) (mem_inputs_iff.mpr ⟨pin, reads⟩)
  · obtain ⟨node, live, shape⟩ : ∃ node,
        (applyAll (passedOn (.param 0))).graph.node? ⟨1, 0⟩ = some node ∧
          (node.pending.isEmpty &&
            ((applyAll (passedOn (.param 0))).graph.inputValue? node 0).isNone) = true :=
      (Option.any_eq_true _ _).mp (by decide +kernel)
    simp only [Bool.and_eq_true, List.isEmpty_iff, Option.isNone_iff_eq_none] at shape
    obtain ⟨linked, silent⟩ := shape
    refine ⟨_, node, passedOn_reached, by decide +kernel, live, silent, ?_⟩
    -- no operation of the run may take a value away, so the sources need not have one
    refine settled_outputs_agree (fun _ isPure => isPure) (fun _ member => by
      cases member) ?_ passedOn_reached
      (by decide +kernel) live linked (.inr fun _ _ _ allowed => allowed.2.2)
    rintro env w operation ⟨rfl, member, -⟩
    exact ⟨rfl, Library.builtin_conforms_fresh, passedOn_uses (fun _ computes => by
      cases computes) member⟩

/-- A pass-through node behind a constant is connected to a parameter without a value. -/
def constantLeft : List Operation :=
  [.addNode (.const default) 0, .addNode .pass 1, .connect ⟨1, 0⟩ 0 (some ⟨0, 0⟩),
    .addNode (.param 0) 0,
    .settle 100, .connect ⟨1, 0⟩ 0 (some ⟨2, 0⟩)]

/-- A node goes on showing the value of a source that it no longer reads. -/
theorem constantLeft_shown :
    ∃ w node, Reached (fun env _ _ => env = { library := .builtin }) {} w ∧
    w.graph.isSettled = true ∧
      w.graph.node? ⟨1, 0⟩ = some node ∧ node.pending = [] ∧ node.output.isSome = true ∧
      ((w.graph.evaluate {} ⟨1, 0⟩ node).run w.store).1 = .ok none := by
  have reached : Reached (fun env _ _ => env = { library := .builtin }) {}
      (applyAll constantLeft) :=
    .all constantLeft fun _ _ _ => rfl
  obtain ⟨node, live, shape⟩ : ∃ node, (applyAll constantLeft).graph.node? ⟨1, 0⟩ = some node ∧
      (node.isPass && node.pending.isEmpty && node.output.isSome &&
        ((applyAll constantLeft).graph.inputValue? node 0).isNone) = true :=
    (Option.any_eq_true _ _).mp (by decide +kernel)
  simp only [Bool.and_eq_true, List.isEmpty_iff, Option.isNone_iff_eq_none] at shape
  obtain ⟨⟨⟨isPass, linked⟩, shown⟩, silent⟩ := shape
  refine ⟨_, node, reached, by decide +kernel, live, linked, shown, ?_⟩
  rw [evaluate_pass isPass, silent]
  rfl

end Blockflow
