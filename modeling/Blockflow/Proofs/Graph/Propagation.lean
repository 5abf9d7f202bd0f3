import Blockflow.Proofs.Graph.Evaluation
import Blockflow.Proofs.Graph.Marks

/-!
# Propagation

What keeps the outputs of nodes up to date: a node whose inputs may have changed waits to be
evaluated, and every other node shows what it computes from the outputs of its sources. There is one
exception. A pin that is connected to a node without a value does not wake its own node, which then
goes on showing what it showed. `SoundFor` is the invariant, up to how outputs are compared; where
`strict` holds, the exception does not arise.
-/

namespace Blockflow

open List Node

namespace Graph

/-- An output shows what was computed: it was stored, or the output before was kept since it is the
same. -/
def Shows (output made : Option Value) : Prop := output = made ∨ sameOutput output made

/-- A diagnostic names the node. -/
def Records (g : Graph) (id : Handle) : Prop :=
  ∃ d ∈ g.diagnostics.entries, d.locator.node = some id

/-- A source of the node shows no value. -/
def Blocked (g : Graph) (n : Node) : Prop :=
  ∃ pin src, n.source? pin = some src ∧ g.output? src = none

/-- Every node that waits to be evaluated is in the worklist, but for the one that is being
evaluated. -/
def Waits (busy : Option Handle) (g : Graph) : Prop :=
  ∀ id n, g.node? id = some n → some id ≠ busy → n.queued →
    id ∈ g.worklist.toList

namespace Waits

variable {busy : Option Handle} {a b g : Graph}

lemma rewrite (waits : Waits busy a) (rewrites : Rewrites R a b)
    (queued : ∀ {id x y}, R id x y → y.queued → x.queued) (worklist : b.worklist = a.worklist) :
    Waits busy b := by
  intro id n' live differs isQueued
  obtain ⟨n, was, step⟩ := rewrites.earlier live
  rw [worklist]
  exact waits id n was differs (queued step isQueued)

lemma of_nodes (waits : Waits busy a) (nodes : b.nodes = a.nodes)
    (worklist : b.worklist = a.worklist) :
    Waits busy b :=
  waits.rewrite (R :=
    fun _ x y => y = x) (.of_nodes (fun _ _ => rfl) nodes) (fun eq queued => eq ▸ queued) worklist

lemma markDirty (waits : Waits busy g) (id : Handle) (pin : Nat) :
    Waits busy (g.markDirty id pin) := by
  intro other n live differs queued
  rw [node?_markDirty] at live
  cases found : g.node? id with
  | none =>
    rw [found] at live
    have eq : g.markDirty id pin = g := by rw [Graph.markDirty, found]
    rw [eq]
    split at live
    · cases live
    · exact waits other n live differs queued
  | some before =>
    -- the worklist grows by the node, unless it waits already
    have worklist : (g.markDirty id pin).worklist =
        if before.queued then g.worklist else g.worklist.push id := by
      rw [Graph.markDirty, found]
      dsimp only
      split <;> rfl
    have later : ∀ {id'}, id' ∈ g.worklist.toList → id' ∈ (g.markDirty id pin).worklist.toList := by
      intro id' mem
      rw [worklist]
      split
      · exact mem
      · simp [mem]
    split at live
    next eq =>
      subst eq
      by_cases was : before.queued
      · exact later (waits other before found differs was)
      · rw [worklist, if_neg was]
        simp
    next => exact later (waits other n live differs queued)

lemma addNode (waits : Waits busy g) (wf : g.nodes.WellFormed) (b : Behavior) (inputs : Nat)
    (owner : Option Handle) : Waits busy (g.addNode b inputs owner).2 := by
  obtain ⟨-, -, found, -⟩ := Arena.alloc_facts wf (make b inputs owner)
  have added : ∀ g' : Graph, g'.nodes = (g.nodes.alloc (make b inputs owner)).2 →
      g'.worklist = g.worklist →
      Waits busy (g'.markDirty (g.nodes.alloc (make b inputs owner)).1 0) := by
    intro g' nodes worklist
    refine markDirty ?_ _ 0
    intro id n live differs queued
    rw [node?, nodes, found] at live
    split at live
    · cases live
      cases queued
    · rw [worklist]
      exact waits id n live differs queued
  cases owner <;> exact added _ rfl rfl

lemma marking (busy : Option Handle) : Marking (Waits busy) where
  same eq worklist waits := waits.rewrite eq (fun eq queued => eq.1 ▸ queued) worklist
  markDirty id pin waits := waits.markDirty id pin
  without id waits other n live differs queued := by
    rw [node?_without] at live
    split at live
    · cases live
    · exact waits other n live differs queued

end Waits

variable {a b : Graph} {n n' : Node}

/-! ## Readings -/

lemma readings_eq (inputs : n'.inputs = n.inputs)
    (outputs : ∀ src, some src ∈ n.inputs → b.output? src = a.output? src) :
    b.readings n' = a.readings n := by
  rw [readings, inputs]
  refine map_congr_left fun src mem => ?_
  cases src with
  | none => rfl
  | some src => exact outputs src mem

/-- A pin that read no value and now is connected to a node without one. -/
lemma readings_connected {id : Handle} {new : Option Handle} {ready : Bool}
    (step : Connected id pin new ready id n n') (outputs : ∀ src, b.output? src = a.output? src)
    (inside : pin < n.inputs.length) (was : a.inputValue? n pin = none)
    (now : new.bind a.output? = none) :
    b.readings n' = a.readings n := by
  have eq : b.output? = a.output? := funext outputs
  refine ext_getElem? fun k => ?_
  rw [readings, readings, getElem?_map, getElem?_map, step.input inside, eq]
  split
  next isPin =>
    subst isPin
    rw [inputValue?, source?, getElem?_eq_getElem inside] at was
    rw [getElem?_eq_getElem inside, Option.map_some, now]
    exact congrArg some was.symm
  next => rfl

lemma mem_inputs_iff : some src ∈ n.inputs ↔ ∃ pin, n.source? pin = some src := by
  rw [mem_iff_getElem?]
  exact exists_congr fun pin => (Option.join_eq_some_iff).symm

end Graph

open Graph

section

variable (shows : Option Value → Option Value → Prop) (P : Native → Prop) (strict : Prop)
  (ms : Methods)

/-- The output of a node shows what its evaluation gave, in an earlier store; a failure is recorded,
unless natives name other nodes in their failures. -/
def UpToDateFor (w : Workspace) (id : Handle) (n : Node) : Prop :=
  ∃ earlier, ((w.graph.evaluate ms id n).run earlier).2.Extends w.store ∧
    match ((w.graph.evaluate ms id n).run earlier).1 with
    | .ok made => shows n.output made
    | .error _ => n.output = none ∧ ((∀ native, P native → native.Placeless) → w.graph.Records id)

/-- A node that waits for nothing is up to date, or reads a node without a value. -/
def FineFor (w : Workspace) (id : Handle) (n : Node) : Prop :=
  UpToDateFor shows P ms w id n ∨ ¬strict ∧ w.graph.Blocked n

/-- What holds before and after every change; `busy` is the node that is being evaluated. -/
structure SoundFor (busy : Option Handle) (w : Workspace) : Prop where
  wired : w.graph.Wired
  natives : ∀ {id n native}, w.graph.node? id = some n → n.behavior = .op native → P native
  pinsOnce : ∀ {id n}, w.graph.node? id = some n → (n.pending.map Prod.fst).Nodup
  waits : w.graph.Waits busy
  fine : ∀ {id n}, w.graph.node? id = some n → some id ≠ busy → n.queued = false →
    n.pending = [] → FineFor shows P strict ms w id n

end

/-- Soundness up to how the graph itself compares outputs. -/
abbrev Sound := SoundFor Shows

/-- What is stored is shown, and only nothing shows nothing. -/
structure Showing (shows : Option Value → Option Value → Prop) : Prop where
  refl : ∀ output, shows output output
  none : ∀ {output}, shows output none → output = none

lemma eq_none_of_sameOutput {output : Option Value} (eq : sameOutput output none) :
    output = none := by
  cases output with
  | none => rfl
  | some => cases eq

lemma showing_shows : Showing Shows where
  refl _ := .inl rfl
  none shown := shown.elim (fun stored => stored) eq_none_of_sameOutput

variable {shows : Option Value → Option Value → Prop} {P : Native → Prop} {strict : Prop}
  {ms : Methods}
  {w w' : Workspace} {id : Handle} {n n' : Node}

lemma UpToDateFor.transfer (current : UpToDateFor shows P ms w id n)
    (behavior : n'.behavior = n.behavior) (readings : w'.graph.readings n' = w.graph.readings n)
    (preview : w'.graph.previews.lookup id = w.graph.previews.lookup id)
    (output : n'.output = n.output)
    (records : w.graph.Records id → w'.graph.Records id) (extends' : w.store.Extends w'.store) :
    UpToDateFor shows P ms w' id n' := by
  obtain ⟨earlier, known, shows'⟩ := current
  refine ⟨earlier, ?_, ?_⟩
  · rw [evaluate_congr behavior readings preview]
    exact known.trans extends'
  · rw [evaluate_congr behavior readings preview, output]
    split at shows'
    · exact shows'
    · exact ⟨shows'.1, fun placeless => records (shows'.2 placeless)⟩

/-- A node is as fine as it was if it reads the same nodes, and they show the same. -/
lemma FineFor.transfer (fine : FineFor shows P strict ms w id n)
    (behavior : n'.behavior = n.behavior)
    (inputs : n'.inputs = n.inputs)
    (outputs : ∀ src, some src ∈ n.inputs → w'.graph.output? src = w.graph.output? src)
    (preview : w'.graph.previews.lookup id = w.graph.previews.lookup id)
    (output : n'.output = n.output)
    (records : w.graph.Records id → w'.graph.Records id) (extends' : w.store.Extends w'.store) :
    FineFor shows P strict ms w' id n' := by
  rcases fine with current | ⟨lax, pin, src, reads, silent⟩
  · exact .inl
      (current.transfer behavior (readings_eq inputs outputs) preview output records extends')
  · refine .inr ⟨lax, pin, src, ?_, ?_⟩
    · rw [source?, inputs]
      exact reads
    · rw [outputs src (mem_inputs_iff.mpr ⟨pin, reads⟩)]
      exact silent

namespace SoundFor

variable {busy : Option Handle} {w w' : Workspace} {R : Handle → Node → Node → Prop}
  {g : Graph} {id : Handle}

section

variable (sound : SoundFor shows P strict ms busy w)
include sound

/-- The shape of all lemmas below: nodes are rewritten in place, and what is idle afterwards is
fine. -/
lemma rewrite {busy' : Option Handle}
    (rewrites : Rewrites R w.graph w'.graph)
    (behavior : ∀ {id a b}, R id a b → b.behavior = a.behavior)
    (pinsOnce : ∀ {id a b}, R id a b → (a.pending.map Prod.fst).Nodup →
      (b.pending.map Prod.fst).Nodup)
    (wired : w'.graph.Wired) (waits : w'.graph.Waits busy')
    (fine : ∀ {id n n'}, w.graph.node? id = some n → w'.graph.node? id = some n' →
      R id n n' → some id ≠ busy' → n'.queued = false → n'.pending = [] →
      FineFor shows P strict ms w' id n') : SoundFor shows P strict ms busy' w' where
  wired := wired
  natives live computes := by
    obtain ⟨n, was, step⟩ := rewrites.earlier live
    exact sound.natives was ((behavior step).symm.trans computes)
  pinsOnce live := by
    obtain ⟨n, was, step⟩ := rewrites.earlier live
    exact pinsOnce step (sound.pinsOnce was)
  waits := waits
  fine live differs idle settled := by
    obtain ⟨n, was, step⟩ := rewrites.earlier live
    exact fine was live step differs idle settled

lemma of_nodes (nodes : w'.graph.nodes = w.graph.nodes)
    (worklist : w'.graph.worklist = w.graph.worklist)
    (previews : w'.graph.previews = w.graph.previews)
    (records : ∀ id, some id ≠ busy → w.graph.contains id → w.graph.Records id →
      w'.graph.Records id)
    (extends' : w.store.Extends w'.store) : SoundFor shows P strict ms busy w' := by
  have same : ∀ id, w'.graph.node? id = w.graph.node? id := fun id => by rw [node?, node?, nodes]
  refine sound.rewrite (R := fun _ a b => b = a) (.of_nodes (fun _ _ => rfl) nodes)
    (fun same => congrArg _ same) (fun same nodup => same ▸ nodup)
      (sound.wired.sameEdges (.of_nodes nodes))
    (sound.waits.of_nodes nodes worklist) ?_
  rintro id n _ was - rfl differs idle settled
  refine (sound.fine was differs idle settled).transfer rfl rfl (fun src _ => ?_)
    (by rw [previews]) rfl
    (records id differs (contains_iff.mpr ⟨_, was⟩)) extends'
  rw [output?, output?, same]

lemma store {store : Store} (extends' : w.store.Extends store) :
    SoundFor shows P strict ms busy { w with store } :=
  sound.of_nodes rfl rfl rfl (fun _ _ _ known => known) extends'

lemma expansions (expansions : Arena Expansion) :
    SoundFor shows P strict ms busy { w with graph := { w.graph with expansions } } :=
  sound.of_nodes rfl rfl rfl (fun _ _ _ known => known) (.refl _)

end

lemma empty (shows : Option Value → Option Value → Prop) (P : Native → Prop) (strict : Prop)
    (ms : Methods) (store : Store) : SoundFor shows P strict ms none { store } := by
  have noNode : ∀ {id n}, ({ store } : Workspace).graph.node? id ≠ some n :=
    fun live => by cases live
  exact ⟨wired_empty, fun live => absurd live noNode, fun live => absurd live noNode,
    fun _ _ live => absurd live noNode, fun live => absurd live noNode⟩

/-- Where the worklist is empty no node is to be evaluated. -/
lemma unqueued (sound : SoundFor shows P strict ms none w) (settled : w.graph.isSettled)
    (live : w.graph.node? id = some n) : n.queued = false := by
  cases queued : n.queued with
  | false => rfl
  | true =>
    have mem := sound.waits id n live nofun queued
    rw [(Worklist.isEmpty_iff _).mp settled] at mem
    cases mem

lemma current (sound : SoundFor shows P True ms none w) (settled : w.graph.isSettled)
    (live : w.graph.node? id = some n) (linked : n.pending = []) :
    UpToDateFor shows P ms w id n := by
  rcases sound.fine live nofun (sound.unqueued settled live) linked with current | ⟨lax, -⟩
  · exact current
  · exact absurd trivial lax

lemma records_push (d : Diagnostic) (known : g.Records id) :
    Records { g with diagnostics := g.diagnostics.push d } id := by
  obtain ⟨entry, mem, names⟩ := known
  by_cases eq : d.locator.node = some id
  · exact ⟨d, by simp [DiagnosticChain.push], eq⟩
  · refine ⟨entry, ?_, names⟩
    refine mem_append_left _ ?_
    split
    next n isNode =>
      refine mem_filter.mpr ⟨mem, ?_⟩
      rw [names, ← isNode]
      simpa using fun equal => eq equal.symm
    next => exact mem

lemma push (sound : SoundFor shows P strict ms busy w) (d : Diagnostic) :
    SoundFor shows P strict ms busy { w with graph.diagnostics := w.graph.diagnostics.push d } :=
  sound.of_nodes rfl rfl rfl (fun _ _ _ known => records_push d known) (.refl _)

lemma records_clear (differs : other ≠ id) {diagnostics : DiagnosticChain}
    (eq : diagnostics = g.diagnostics.clearNode id) (known : g.Records other) {g' : Graph}
    (isNow : g'.diagnostics = diagnostics) : g'.Records other := by
  obtain ⟨entry, mem, names⟩ := known
  refine ⟨entry, ?_, names⟩
  rw [isNow, eq]
  refine mem_filter.mpr ⟨mem, ?_⟩
  rw [names]
  simpa using differs

/-- Before a node is evaluated, what was said about it is forgotten. -/
lemma clear (sound : SoundFor shows P strict ms (some id) w) :
    SoundFor shows P strict ms (some id) (w.cleared id) :=
  sound.of_nodes rfl rfl rfl (fun _ differs _ known =>
    records_clear (fun eq => differs (congrArg some eq)) rfl known rfl) (.refl _)

lemma records_of_eq {a b : Graph} (eq : b.diagnostics = a.diagnostics) (known : a.Records id) :
    b.Records id := by
  obtain ⟨d, mem, names⟩ := known
  exact ⟨d, eq ▸ mem, names⟩

lemma addNode (sound : SoundFor shows P strict ms busy w)
    (uses : ∀ native, b = .op native → P native) (inputs : Nat) (owner : Option Handle) :
    SoundFor shows P strict ms busy { w with graph := (w.graph.addNode b inputs owner).2 } := by
  obtain ⟨-, fresh, found, -⟩ := addNode_facts sound.wired.wellFormed b inputs owner
  have notes := addNode_notes w.graph b inputs owner
  have wired := sound.wired.addNode b inputs owner
  have waits := sound.waits.addNode sound.wired.wellFormed b inputs owner
  generalize w.graph.addNode b inputs owner = new at fresh found notes wired waits ⊢
  -- a node is the new one, or it was there before
  have cases : ∀ {id n}, new.2.node? id = some n →
      (id = new.1 ∧ n = { make b inputs owner with dirty := pinBit 0, queued := true }) ∨
        w.graph.node? id = some n := by
    intro id n live
    rw [found] at live
    split at live
    next eq =>
      cases live
      exact .inl ⟨eq, rfl⟩
    next => exact .inr live
  refine ⟨wired, ?_, ?_, waits, ?_⟩
  · intro id n native live computes
    rcases cases live with ⟨-, rfl⟩ | was
    · exact uses native computes
    · exact sound.natives was computes
  · intro id n live
    rcases cases live with ⟨-, rfl⟩ | was
    · exact nodup_nil
    · exact sound.pinsOnce was
  · intro id n live differs idle settled
    rcases cases live with ⟨-, rfl⟩ | was
    · cases idle
    · refine (sound.fine was differs idle settled).transfer rfl rfl ?_ (by rw [notes.1]) rfl
        (records_of_eq notes.2) (.refl _)
      intro src mem
      obtain ⟨pin, reads⟩ := mem_inputs_iff.mp mem
      have known : src ≠ new.1 := fun eq => fresh (eq ▸ sound.wired.issued ⟨n, was, reads⟩)
      rw [output?, output?, found, if_neg known]

/-- Connecting a pin. If the new source shows no value, the node is not woken. -/
lemma connect (sound : SoundFor shows P strict ms busy w) (id : Handle) (pin : Nat)
    (src : Option Handle)
    (calm : strict → ∀ n, w.graph.node? id = some n → some id ≠ busy → n.queued = false →
      w.graph.readyFor src = false →
      n.pending = [] ∧ pin < n.inputs.length ∧ w.graph.inputValue? n pin = none) :
    SoundFor shows P strict ms busy { w with graph := w.graph.connect id pin src } := by
  have keeps := Keeps.connect w.graph id pin src
  have notes := (NodeEdit.connect w.graph id pin src).notes
  refine sound.rewrite (connect_rewrites w.graph id pin src) (fun step => step.kept.behavior) ?_
    (sound.wired.connect not_false pin src) ((Waits.marking busy).connect id pin src sound.waits) ?_
  · intro other a b step nodup
    rw [step.pending]
    split
    · exact nodup.sublist (filter_sublist.map _)
    · exact nodup
  · intro other n n' was live step differs idle settled
    have idle' : n.queued = false := by
      rw [step.queued, Bool.or_eq_false_iff] at idle
      exact idle.1
    by_cases eq : other = id
    · subst eq
      have unready : w.graph.readyFor src = false := by
        have known := idle
        rw [step.queued, Bool.or_eq_false_iff] at known
        simpa using known.2
      by_cases isStrict : strict
      · -- the pin read nothing before, and reads nothing now
        obtain ⟨nothing, inside, silent⟩ := calm isStrict n was differs idle' unready
        rcases sound.fine was differs idle' nothing with current | ⟨lax, -⟩
        · have now : (w.graph.live? src).bind w.graph.output? = none := by
            rw [readyFor] at unready
            cases target : w.graph.live? src with
            | none => rfl
            | some target' =>
              rw [target] at unready
              simpa using unready
          exact .inl (current.transfer step.kept.behavior
            (readings_connected step keeps.output?_eq inside silent now)
              (by rw [notes.1]) step.kept.output
            (records_of_eq notes.2) (.refl _))
        · exact absurd isStrict lax
      · -- the pin reads a node without a value
        rw [readyFor] at unready
        cases target : w.graph.live? src with
        | none =>
          rw [target] at unready
          cases unready
        | some target' =>
          rw [target] at unready
          refine .inr ⟨isStrict, pin, target', ?_, ?_⟩
          · have reads : (w.graph.connect other pin src).Reads other pin target' := by
              rw [reads_connect, if_pos ⟨rfl, rfl⟩]
              exact ⟨contains_iff.mpr ⟨n, was⟩, target⟩
            obtain ⟨n'', live', isSource⟩ := reads
            cases live.symm.trans live'
            exact isSource
          · rw [keeps.output?_eq]
            simpa using unready
    · have pending : n'.pending = n.pending := by rw [step.pending, if_neg eq]
      have inputs : n'.inputs = n.inputs := by rw [step.inputs, if_neg eq]
      exact (sound.fine was differs idle' (pending.symm.trans settled)).transfer
        step.kept.behavior inputs
        (fun src _ => keeps.output?_eq src) (by rw [notes.1]) step.kept.output
          (records_of_eq notes.2) (.refl _)

lemma wake (id : Handle) {change : Node → Node} (sound : SoundFor shows P strict ms busy w)
    (rewrites : Rewrites (fun other a b => b = if other = id then change a else a) w.graph g)
    (kept : ∀ a, Kept a (change a) ∧ (change a).queued)
    (pinsOnce : ∀ a, (a.pending.map Prod.fst).Nodup → ((change a).pending.map Prod.fst).Nodup)
    (wired : g.Wired)
    (waits : g.Waits busy)
    (previews : ∀ other, other ≠ id → g.previews.lookup other = w.graph.previews.lookup other)
    (diagnostics : g.diagnostics = w.graph.diagnostics) :
    SoundFor shows P strict ms busy { w with graph := g } := by
  have kept' : ∀ other a, Kept a (if other = id then change a else a) := by
    intro other a
    split
    · exact (kept a).1
    · exact .refl a
  have keeps : Keeps w.graph g := rewrites.imp fun step => step ▸ kept' _ _
  refine sound.rewrite rewrites (fun step => step ▸ (kept' _ _).behavior) ?_ wired waits ?_
  · rintro other a _ rfl nodup
    split
    · exact pinsOnce a nodup
    · exact nodup
  · rintro other a _ was - rfl differs idle settled
    by_cases same : other = id
    · rw [if_pos same] at idle
      cases idle.symm.trans (kept a).2
    · rw [if_neg same] at idle settled ⊢
      exact (sound.fine was differs idle settled).transfer rfl rfl
        (fun src _ => keeps.output?_eq src)
        (previews other same) rfl (records_of_eq diagnostics) (.refl _)

lemma addPending (sound : SoundFor shows P strict ms busy w) (id : Handle) (pin : Nat)
    (pending : Pending) :
    SoundFor shows P strict ms busy { w with graph := w.graph.addPending id pin pending } := by
  have notes := (NodeEdit.markDirty (w.graph.modifyNode id (·.setPending pin pending)) id pin).notes
  refine sound.wake id (addPending_rewrites w.graph id pin pending)
    (fun _ => ⟨⟨rfl, rfl, rfl, fun _ => rfl⟩, rfl⟩)
    (fun a nodup => ?_) (sound.wired.sameEdges (.addPending _ id pin pending))
    ((Waits.marking busy).addPending id pin pending sound.waits) (fun other _ => by
      rw [Graph.addPending, notes.1]; rfl)
    (by rw [Graph.addPending, notes.2]; rfl)
  show ((a.pending.filter (·.1 != pin) ++ [(pin, pending)]).map Prod.fst).Nodup
  rw [map_append]
  refine nodup_append.mpr ⟨nodup.sublist (filter_sublist.map _), by simp, ?_⟩
  rintro k mem _ isPin rfl
  obtain ⟨entry, kept, rfl⟩ := mem_map.mp mem
  have other := (mem_filter.mp kept).2
  rw [map_singleton, mem_singleton] at isPin
  rw [isPin] at other
  simp at other

lemma setPreview (sound : SoundFor shows P strict ms busy w) (param : Handle) (v : Value) :
    SoundFor shows P strict ms busy { w with graph := w.graph.setPreview param v } := by
  have notes := (NodeEdit.markDirty
    { w.graph with previews := (param, v) :: w.graph.previews.filter (·.1 != param) } param 0).notes
  refine sound.wake param (setPreview_rewrites w.graph param v)
    (fun _ => ⟨⟨rfl, rfl, rfl, fun _ => rfl⟩, rfl⟩)
    (fun _ nodup => nodup) (sound.wired.sameEdges (.setPreview _ param v))
    ((Waits.marking busy).setPreview param v sound.waits) (fun other differs => ?_) notes.2
  rw [Graph.setPreview, notes.1, lookup_cons, if_neg differs, lookup_filter_ne, if_neg differs]

end SoundFor

end Blockflow
