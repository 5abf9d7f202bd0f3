import Blockflow.Proofs.Expand.Layouts
import Blockflow.Proofs.Expand.Mirrors
import Blockflow.Proofs.Expand.Unfolding

/-!
# Expanding circuits stated in other ways

Expanding circuits in two graphs that mirror each other keeps them so, and ends in the same way in
both. The rules for single edits come first; then there is one lemma for each function that expands
circuits.
-/

namespace Blockflow

open List Option Effect Expansion Graph Edit Assembly Circuit Expand

variable {α β γ δ : Type}

/-! ## Later graphs -/

namespace Graph

variable {a b c g : Graph}

def owner? (g : Graph) (id : Handle) : Option Handle := (g.form? id).bind Form.owner

lemma owner?_of_node? {id : Handle} (found : g.node? id = some n) : g.owner? id = n.owner := by
  rw [owner?, form?_of_node? found]
  rfl

lemma host?_of_expansions (eq : b.expansions = a.expansions) : b.host? = a.host? := by
  funext id
  rw [host?, host?, expansion?, expansion?, eq]

/-- The nodes and expansions of the first graph are still there, with their owners and circuits. -/
structure Later (a b : Graph) : Prop where
  hosts : ∀ {id name}, a.host? id = some name → b.host? id = some name
  owners : ∀ {id owner}, a.owner? id = some owner → b.owner? id = some owner

namespace Later

lemma refl (g : Graph) : g.Later g := ⟨id, id⟩

lemma trans (first : a.Later b) (second : b.Later c) : a.Later c :=
  ⟨fun known => second.hosts (first.hosts known), fun known => second.owners (first.owners known)⟩

lemma of_forms (hosts : b.host? = a.host?) (forms : ∀ id, b.form? id = a.form? id) : a.Later b := by
  refine ⟨fun known => hosts ▸ known, fun known => ?_⟩
  rw [owner?, forms]
  exact known

lemma of_keeps (keeps : Keeps a b) (expansions : b.expansions = a.expansions) : a.Later b := by
  refine ⟨fun known => (host?_of_expansions expansions) ▸ known, fun {id owner} known => ?_⟩
  obtain ⟨form, isForm, isOwner⟩ := bind_eq_some_iff.mp known
  obtain ⟨n, live, rfl⟩ := map_eq_some_iff.mp isForm
  obtain ⟨n', live', kept⟩ := keeps.later live
  rw [owner?_of_node? live', kept.owner]
  exact isOwner

lemma of_adds (adds : Adds new a b) : a.Later b := by
  refine ⟨fun {id name} known => ?_, fun {id owner} known => ?_⟩
  · have hosts : ∀ g : Graph, g.host? id = (g.plain? id).map (·.circuit.name) := by
      intro g
      rw [host?, plain?, Option.map_map]
      rfl
    rw [hosts, adds.plain, ← hosts]
    exact known
  · obtain ⟨form, isForm, isOwner⟩ := bind_eq_some_iff.mp known
    rw [owner?, adds.form isForm]
    exact isOwner

section

variable (g : Graph) (id : Handle) (pin : Nat)

lemma connect (src : Option Handle) : g.Later (g.connect id pin src) :=
  of_keeps (.connect g id pin src) (expansions_connect g id pin src)

lemma addPending (pending : Pending) : g.Later (g.addPending id pin pending) :=
  of_keeps (.addPending g id pin pending) (expansions_addPending g id pin pending)

lemma addPendingLink (link : String) : g.Later (g.addPendingLink id pin link) := by
  rw [Graph.addPendingLink]
  split
  · exact refl g
  · exact addPending g id pin _

lemma modifyExpansion (keeps : ∀ e, (f e).circuit.name = e.circuit.name) :
    g.Later (g.modifyExpansion id f) :=
  .of_forms (g.host?_modifyExpansion id keeps) fun _ => rfl

end

lemma addNode (wf : g.nodes.WellFormed) (b : Behavior) (inputs : Nat) (owner : Handle) :
    g.Later (g.addNode b inputs (some owner)).2 ∧
      (g.addNode b inputs (some owner)).2.owner? (g.addNode b inputs (some owner)).1 =
        some owner := by
  refine ⟨of_adds (.addNode wf b inputs owner), ?_⟩
  rw [owner?, form?_addNode wf, if_pos rfl]
  rfl

lemma allocExpansion (wf : g.expansions.WellFormed) (e : Expansion) :
    g.Later { g with expansions := (g.expansions.alloc e).2 } ∧
      ({ g with expansions := (g.expansions.alloc e).2 } : Graph).host? (g.expansions.alloc e).1 =
        some e.circuit.name := by
  obtain ⟨-, unissued, found, -⟩ := Arena.alloc_facts wf e
  refine ⟨⟨fun {id name} known => ?_, id⟩, ?_⟩
  · rw [host?, expansion?, found, if_neg]
    · exact known
    · intro eq
      obtain ⟨old, isOld, -⟩ := map_eq_some_iff.mp known
      exact unissued (.inl (eq ▸ Arena.contains_iff.mpr ⟨old, isOld⟩))
  · rw [host?, expansion?, found, if_pos rfl]
    rfl

end Later

end Graph

/-! ## Edits of two graphs -/

section

variable {lib lib' : Library} (style : Restyling lib lib')

/-- Two graphs that mirror each other, after a graph of the first kind, with the same store. -/
structure Workspace.Mirrors (start : Graph) (w w' : Workspace) : Prop where
  graph : w.graph.Mirrors style w'.graph
  store : w'.store = w.store
  later : start.Later w.graph

/-- Two edits that end in the same way from all graphs after a given one. -/
def Mirrored (start : Graph) (R : α → β → Prop) (first : Edit α) (second : Edit β) : Prop :=
  ∀ w w' : Workspace, w.Mirrors style start w' →
    AlikeOutcome R (first.run w).1 (second.run w').1 ∧
      (first.run w).2.Mirrors style start (second.run w').2

end

variable {lib lib' : Library} {style : Restyling lib lib'} {start : Graph} {R : α → β → Prop}
  {S : γ → δ → Prop} {first : Edit α} {second : Edit β}

namespace Mirrored

variable {f : α → Edit γ} {k : β → Edit δ}

lemma pure (related : R a b) :
    Mirrored style start R (Pure.pure a : Edit α) (Pure.pure b : Edit β) :=
  fun _ _ mirrors => ⟨.ok related, mirrors⟩

lemma fail (alike : d.Mirrors d') : Mirrored style start R (fail d : Edit α) (fail d' : Edit β) :=
  fun _ _ mirrors => ⟨.error alike, mirrors⟩

lemma ofExcept (alike : AlikeOutcome R result result') :
    Mirrored style start R (ofExcept result : Edit α) (ofExcept result' : Edit β) :=
  fun _ _ mirrors => ⟨alike, mirrors⟩

lemma bind (same : Mirrored style start R first second)
    (rest : ∀ a b, R a b → Mirrored style start S (f a) (k b)) :
    Mirrored style start S (first >>= f) (second >>= k) := by
  intro w w' mirrors
  have both := same w w' mirrors
  rw [run_bind, run_bind]
  generalize first.run w = ran, second.run w' = ran' at both
  obtain ⟨result, u⟩ := ran
  obtain ⟨result', u'⟩ := ran'
  obtain ⟨outcome, after⟩ := both
  cases outcome with
  | ok related => exact rest _ _ related u u' after
  | error alike => exact ⟨.error alike, after⟩

lemma bind_eq {k : α → Edit δ} {second : Edit α} (same : Mirrored style start Eq first second)
    (rest : ∀ a, Mirrored style start S (f a) (k a)) :
    Mirrored style start S (first >>= f) (second >>= k) :=
  .bind same fun a _ equal => equal ▸ rest a

/-- An edit of the graph, followed by something that may rely on what the edit did. -/
lemma onGraph
    (does : ∀ g g' : Graph, start.Later g → g.Mirrors style g' → (op g).2.Mirrors style (op' g').2 ∧
      g.Later (op g).2 ∧
        Mirrored style (op g).2 S (f (op g).1) (k (op' g').1)) :
    Mirrored style start S (onGraph op >>= f) (onGraph op' >>= k) := by
  intro w w' mirrors
  obtain ⟨edited, later, rest⟩ := does w.graph w'.graph mirrors.later mirrors.graph
  obtain ⟨outcome, after⟩ :=
    rest { w with graph := (op w.graph).2 } { w' with graph := (op' w'.graph).2 }
    ⟨edited, mirrors.store, .refl _⟩
  exact ⟨outcome, after.graph, after.store, (mirrors.later.trans later).trans after.later⟩

lemma modifyGraph (does : ∀ g g' : Graph, start.Later g → g.Mirrors style g' →
      (op g).Mirrors style (op' g') ∧ g.Later (op g)) :
    Mirrored style start (fun _ _ => True) (modifyGraph op) (modifyGraph op') := by
  intro w w' mirrors
  obtain ⟨edited, later⟩ := does w.graph w'.graph mirrors.later mirrors.graph
  exact ⟨.ok trivial, edited, mirrors.store, mirrors.later.trans later⟩

lemma onStore (action : Action α) : Mirrored style start Eq (onStore action) (onStore action) := by
  intro w w' mirrors
  have ran : ∀ w : Workspace, (Edit.onStore action).run w =
      ((action.run w.store).1, { w with store := (action.run w.store).2 }) := fun _ => rfl
  rw [ran, ran, mirrors.store]
  exact ⟨.refl (fun _ => rfl) _, mirrors.graph, rfl, mirrors.later⟩

lemma attempt (same : Mirrored style start R first second) :
    Mirrored style start (AlikeOutcome R) (ofState first.attempt) (ofState second.attempt) :=
  fun w w' mirrors => ⟨.ok (same w w' mirrors).1, (same w w' mirrors).2⟩

lemma mapFailure (same : Mirrored style start R first second) {f : Diagnostic → Diagnostic}
    (alike : ∀ d d', d.Mirrors d' → (f d).Mirrors (f d')) :
    Mirrored style start R (first.mapFailure f) (second.mapFailure f) := by
  intro w w' mirrors
  have both := same w w' mirrors
  rw [Effect.mapFailure, Effect.mapFailure]
  dsimp only
  generalize first.run w = ran, second.run w' = ran' at both
  obtain ⟨result, u⟩ := ran
  obtain ⟨result', u'⟩ := ran'
  obtain ⟨outcome, after⟩ := both
  cases outcome with
  | ok related => exact ⟨.ok related, after⟩
  | error same => exact ⟨.error (alike _ _ same), after⟩

lemma mapM (items : List ε) {f : ε → Edit α} {k : ε → Edit α}
    (each : ∀ item ∈ items, Mirrored style start Eq (f item) (k item)) :
    Mirrored style start Eq (items.mapM f) (items.mapM k) := by
  induction items with
  | nil => exact .pure rfl
  | cons item items ih =>
    rw [mapM_cons, mapM_cons]
    refine .bind (each item mem_cons_self) fun a b eq => ?_
    refine .bind (ih fun other mem => each other (mem_cons_of_mem _ mem)) fun as bs rest => ?_
    rw [eq, rest]
    exact .pure rfl

lemma forM {items : List ε} {items' : List ζ} (both : Forall₂ T items items') {f : ε → Edit Unit}
    {k : ζ → Edit Unit}
    (each : ∀ item item', item ∈ items → T item item' →
      Mirrored style start (fun _ _ => True) (f item) (k item')) :
    Mirrored style start (fun _ _ => True) (items.forM f) (items'.forM k) := by
  induction both with
  | nil => exact .pure trivial
  | cons related _ ih =>
    exact .bind (each _ _ mem_cons_self related) fun _ _ _ =>
      ih fun item item' mem => each item item' (mem_cons_of_mem _ mem)

end Mirrored

/-! ## Functions that expand circuits -/

namespace Expand

variable {id : Handle} {name : String} {block : Nat}

lemma expansionAt_mirrored
    (rest : ∀ (g : Graph) (e e' : Expansion), start.Later g → g.expansion? id = some e →
      e.Mirrors style g.host? e' → Mirrored style g S (f e) (k e')) :
    Mirrored style start S (expansionAt id >>= f) (expansionAt id >>= k) := by
  intro w w' mirrors
  rw [run_bind, run_bind]
  rcases mirrors.graph.expansion? id with ⟨gone, gone'⟩ | ⟨e, e', found, found', same⟩
  · rw [expansionAt_gone gone, expansionAt_gone gone']
    exact ⟨.error (.refl _), mirrors⟩
  · rw [expansionAt_run found, expansionAt_run found']
    obtain ⟨outcome, after⟩ :=
      rest w.graph e e' mirrors.later found same w w' ⟨mirrors.graph, mirrors.store, .refl _⟩
    exact ⟨outcome, after.graph, after.store, mirrors.later.trans after.later⟩

lemma modifyAt_mirrored (keeps : ∀ e, (f e).circuit.name = e.circuit.name)
    (related : ∀ (g : Graph) (e e' : Expansion), start.Later g → g.expansion? id = some e →
      e.Mirrors style g.host? e' → (f e).Mirrors style g.host? (k e')) :
    Mirrored style start (fun _ _ => True) (modifyAt id f) (modifyAt id k) := by
  rw [modifyAt]
  refine .bind (R := fun _ _ => True) ?_ fun _ _ _ => .modifyGraph fun g g' later mirrors => ?_
  · exact expansionAt_mirrored fun _ _ _ _ _ _ => .pure trivial
  · exact ⟨mirrors.modifyExpansion id keeps fun e e' => related g e e' later,
      .modifyExpansion g id keeps⟩

lemma note_mirrored
    (notes : ∀ e c parents links blocks, f { e with circuit := c, parents, links, blocks } =
      { f e with circuit := c, parents, links, blocks }) :
    Mirrored style start (fun _ _ => True) (modifyAt id f) (modifyAt id f) :=
  modifyAt_mirrored
    (fun e => congrArg (·.circuit.name) (notes e e.circuit e.parents e.links e.blocks))
    fun _ _ _ _ _ eq => eq.note notes

lemma addOwned_mirrored (computes : b.Mirrors b') (inputs : Nat)
    (rest : ∀ (g : Graph) (n : Handle), start.Later g → g.owner? n = some id →
      Mirrored style g S (f n) (k n)) :
    Mirrored style start S (addOwned b inputs id >>= f) (addOwned b' inputs id >>= k) := by
  refine .onGraph fun g g' later mirrors => ?_
  obtain ⟨sameId, added⟩ := mirrors.addNode computes inputs (some id)
  obtain ⟨later', owned⟩ := Later.addNode mirrors.nodesFormed b inputs id
  refine ⟨added, later', ?_⟩
  rw [sameId]
  exact rest _ _ (later.trans later') owned

lemma live?_mirrored (n : Option Handle) : Mirrored style start Eq (live? n) (live? n) :=
  fun _ _ mirrors => ⟨.ok (mirrors.graph.live? n).symm, mirrors⟩

lemma resolveArgument_mirrored (id : Handle) (i : Nat) :
    Mirrored style start Eq (resolveArgument id i) (resolveArgument id i) := by
  refine expansionAt_mirrored fun g e e' _ _ eq => ?_
  have fields : e'.argumentNodes = e.argumentNodes ∧ argumentValue e' i = argumentValue e i := by
    have pins := eq.argumentPins
    have isName := eq.name
    refine ⟨?_, ?_⟩
    · cases eq
      rfl
    · rw [argumentValue, pins, isName]
      cases eq
      rfl
  rw [fields.1, fields.2]
  refine .bind_eq (live?_mirrored _) fun n => ?_
  cases n with
  | some n => exact .pure rfl
  | none =>
    refine .bind_eq (.onStore _) fun v => ?_
    refine addOwned_mirrored (.same _) 0 fun g n _ _ => ?_
    exact .bind (note_mirrored fun _ _ _ _ _ => rfl) fun _ _ _ => .pure rfl

lemma waits_of_owner {g : Graph} (owned : g.owner? n = some id)
    (hosted : g.host? id = some name) {pin : Nat} {pending pending' : Pending}
    (mirrors : Pending.Mirrors style name pending pending') :
    ∀ found, g.node? n = some found →
    Waits style g.host? found.owner (pin, pending) (pin, pending') := by
  intro found isFound
  exact ⟨rfl, id, name, (owner?_of_node? isFound).symm.trans owned, hosted, mirrors⟩

lemma addNestedOutput_mirrored (hosted : start.host? id = some name)
    (places : lib.Places name block) (pin : Nat) :
    Mirrored style start Eq (addNestedOutput id block pin)
      (addNestedOutput id (style.move name block) pin) := by
  refine addOwned_mirrored (.nested ..) 1 fun g n later owned => ?_
  refine .bind (.modifyGraph fun g' g'' later' mirrors => ⟨mirrors.addPending ?_, .addPending ..⟩)
    fun _ _ _ => .pure rfl
  exact waits_of_owner (later'.owners owned) (later'.hosts (later.hosts hosted))
    (.nestedOutput places pin)

lemma nestedOutputs_mirrored {callee callee' : Circuit} (hosted : start.host? id = some name)
    (places : lib.Places name block) (eq : callee'.signature = callee.signature)
    (descriptor : Block) (rename : String → String) (args : List String) :
    Mirrored style start Eq (nestedOutputs id block callee descriptor args)
      (nestedOutputs id (style.move name block) callee' (descriptor.rename rename) args) := by
  obtain ⟨isName, inputs, outputs, isArguments⟩ := eq_of_signature eq
  have lengths : (descriptor.rename rename).inputs.length = descriptor.inputs.length ∧
      (descriptor.rename rename).outputs.length = descriptor.outputs.length :=
      ⟨length_map _, length_map _⟩
  have inputPins : callee'.inputPins = callee.inputPins := congrArg Pins.mk inputs
  have outputPins : callee'.outputPins = callee.outputPins := congrArg Pins.mk outputs
  have argumentPins : callee'.argumentPins = callee.argumentPins := congrArg Pins.mk isArguments
  have checks : ∀ pins side supplied, checkPins callee' pins side supplied =
      checkPins callee pins side supplied := by
    intro pins side supplied
    rw [checkPins, checkPins, isName]
  have checked : ∀ check : Except Diagnostic Unit,
      Mirrored style start Eq (ofExcept check : Edit Unit) (ofExcept check) :=
    fun check => .ofExcept (.refl (fun _ => rfl) check)
  rw [nestedOutputs, nestedOutputs]
  simp only [lengths.1, lengths.2, inputPins, outputPins, argumentPins, checks]
  refine .bind (checked _) fun _ _ _ => .bind (checked _) fun _ _ _ =>
    .bind (checked _) fun _ _ _ => ?_
  generalize (if callee.outputPins.isVariadic then callee.outputPins.fixed else
    descriptor.outputs.length) = fixed
  refine .bind_eq (.mapM _ fun pin _ => addNestedOutput_mirrored hosted places pin) fun made => ?_
  cases callee.outputPins.rest? with
  | none => exact .pure rfl
  | some rest =>
    dsimp only
    split
    · refine .bind_eq (addNestedOutput_mirrored hosted places rest) fun carrier => ?_
      refine .bind_eq (.mapM _ fun i _ => ?_) fun _ => .pure rfl
      refine addOwned_mirrored (.same _) 1 fun g n _ _ => ?_
      exact .bind (.modifyGraph fun _ _ _ mirrors => ⟨mirrors.connect .., .connect ..⟩) fun _ _ _ =>
        .pure rfl
    · exact .pure rfl

end Expand

/-! ## Block types -/

/-- The same block of a circuit that is stated in two ways. -/
structure Assembly.Mirrors (style : Restyling lib lib') (name : String) (a b : Assembly) :
    Prop where
  owner : b.owner = a.owner
  block : b.block = a.block.rename (style.rename name)
  arguments : b.arguments = a.arguments
  circuits : b.circuits.map signature = a.circuits.map signature
  mentions : ∀ link ∈ a.block.inputs, lib.Mentions name link

namespace Assembly.Mirrors

variable {name : String} {a b : Assembly} {g g' : Graph} {id : Handle}

variable (mirrors : a.Mirrors style name b)
include mirrors

lemma blank : b.blank = a.blank := by
  rw [Assembly.blank, Assembly.blank, mirrors.block, mirrors.arguments,
    mirrors.circuits, Block.rename]
  simp only [List.map_map, Function.comp_def]

section

variable (same : g.Mirrors style g') (owned : g.owner? id = some a.owner)
  (hosted : g.host? a.owner = some name) (made : List Handle)
include same owned hosted made

/-- A pin waits for the same link, or reads the same node of the block. -/
lemma wirePin (place : PinPlace) (pin : Nat) :
    (wirePin made id g (a.source place, pin)).Mirrors style
      (wirePin made id g' (b.source place, pin)) ∧
      g.Later (wirePin made id g (a.source place, pin)) := by
  cases place with
  | part i => exact ⟨same.connect .., .connect ..⟩
  | input i =>
    refine ⟨?_, .addPendingLink ..⟩
    show (g.addPendingLink id pin _).Mirrors style (g'.addPendingLink id pin _)
    rw [mirrors.block, Block.rename, getElem?_map]
    cases found : a.block.inputs[i]? with
    | none => exact same
    | some link =>
      have mentions := mirrors.mentions link (mem_of_getElem? found)
      refine same.addPendingLink (style.isEmpty mentions) fun _ => ?_
      exact waits_of_owner owned hosted (.link mentions)

lemma wirePins (places : List PinPlace) (first : Nat) :
    (((places.map a.source).zipIdx first).foldl (Assembly.wirePin made id) g).Mirrors style
        (((places.map b.source).zipIdx first).foldl (Assembly.wirePin made id) g') ∧
      g.Later (((places.map a.source).zipIdx first).foldl (Assembly.wirePin made id) g) := by
  induction places generalizing g g' first with
  | nil => exact ⟨same, .refl _⟩
  | cons place places ih =>
    obtain ⟨wired, later⟩ := mirrors.wirePin same owned hosted made place first
    obtain ⟨rest, later'⟩ := ih wired (later.owners owned) (later.hosts hosted) (first + 1)
    exact ⟨rest, later.trans later'⟩

end

lemma makePart (hosted : start.host? a.owner = some name)
    (made : List Handle) (behavior : Behavior) (places : List PinPlace) :
    Mirrored style start Eq (a.makePart made behavior (places.map a.source))
      (b.makePart made behavior (places.map b.source)) := by
  intro w w' both
  obtain ⟨sameId, added⟩ := both.graph.addNode (.same behavior) places.length (some a.owner)
  obtain ⟨later, owned⟩ := Later.addNode both.graph.nodesFormed behavior places.length a.owner
  obtain ⟨wired, later'⟩ :=
    mirrors.wirePins added owned (later.hosts (both.later.hosts hosted)) made places 0
  have ran : ∀ (asm : Assembly) (w : Workspace),
      (asm.makePart made behavior (places.map asm.source)).run w =
      (.ok (w.graph.addNode behavior places.length (some asm.owner)).1,
        { w with
          graph :=
            List.foldl
              (Assembly.wirePin made (w.graph.addNode behavior places.length (some asm.owner)).1)
            (w.graph.addNode behavior places.length (some asm.owner)).2
              (places.map asm.source).zipIdx }) := by
    intro asm w
    rw [Assembly.makePart, List.length_map]
    rfl
  rw [ran, ran, mirrors.owner, sameId]
  exact ⟨.ok rfl, wired, both.store, (both.later.trans later).trans later'⟩

lemma makeParts (hosted : start.host? a.owner = some name)
    (made : List Handle) (behaviors : List Behavior) (pins : List (List PinPlace)) :
    Mirrored style start Eq (a.makeParts made (behaviors.zip (pins.map (·.map a.source))))
      (b.makeParts made (behaviors.zip (pins.map (·.map b.source)))) := by
  induction behaviors generalizing made pins with
  | nil => exact .pure rfl
  | cons behavior behaviors ih =>
    cases pins with
    | nil => exact .pure rfl
    | cons places pins =>
      refine .bind_eq (mirrors.makePart hosted made behavior places) fun n => ?_
      exact ih (made ++ [n]) pins

end Assembly.Mirrors

lemma Layout.assembler_mirrored (layout : Layout) {name : String} (mirrors : a.Mirrors style name b)
    (hosted : start.host? a.owner = some name) :
    Mirrored style start Eq (layout.assembler a) (layout.assembler b) := by
  rw [assembler, assembler, mirrors.blank]
  refine .bind_eq (.onStore _) fun behaviors => ?_
  exact .bind_eq (mirrors.makeParts hosted [] behaviors _) fun _ => .pure rfl

/-! ## Links and nested circuits -/

namespace Library

variable {name : String} {link : String} {c : Circuit}

lemma Mentions.of_input {e : Expansion} (known : lib.circuit? e.circuit.name = some e.circuit)
    {block : Nat}
    {descriptor : Block} (found : e.block? block = some descriptor)
    (mem : link ∈ descriptor.inputs) :
    lib.Mentions e.circuit.name link :=
  ⟨e.circuit, known, mem_append_right _ (mem_flatMap.mpr ⟨descriptor, mem_of_getElem? found, mem⟩)⟩

lemma Mentions.of_output (known : lib.circuit? name = some c)
    (mem : link ∈ c.outputPins.names) : lib.Mentions name link :=
  ⟨c, known, mem_append_left _ mem⟩

lemma circuit?_name (known : lib.circuit? name = some c) : c.name = name := by
  simpa using find?_some known

end Library

namespace Expansion.Mirrors

variable {host : Handle → Option String} {e e' : Expansion}

lemma known (mirrors : e.Mirrors style host e') : lib.circuit? e.circuit.name = some e.circuit := by
  cases mirrors
  assumption

lemma sites (mirrors : e.Mirrors style host e') :
    Forall₂ (CallSite.Mirrors style host) e.parents e'.parents := by
  cases mirrors
  assumption

lemma place (mirrors : e.Mirrors style host e') {block : Nat}
    (places : lib.Places e.circuit.name block) :
    ∃ descriptor, e.block? block = some descriptor ∧ block < e.circuit.blocks.length := by
  obtain ⟨c, found, inside⟩ := places
  cases found.symm.trans mirrors.known
  exact ⟨_, getElem?_eq_getElem inside, inside⟩

end Expansion.Mirrors

lemma Graph.Mirrors.allocExpansion {g g' : Graph} (mirrors : g.Mirrors style g')
    (same : e.Mirrors style g.host? e') : (g'.expansions.alloc e').1 = (g.expansions.alloc e).1 ∧
      ({ g with expansions := (g.expansions.alloc e).2 } : Graph).Mirrors style
        { g' with expansions := (g'.expansions.alloc e').2 } := by
  obtain ⟨sameId, expansions⟩ := mirrors.expansions.alloc same
  obtain ⟨later, -⟩ := Later.allocExpansion mirrors.expansionsFormed e
  exact ⟨sameId,
    { mirrors with
      nodes := mirrors.nodes.mono fun _ _ node => node.mono later.hosts
      expansions := expansions.mono fun _ _ expansion => expansion.mono later.hosts
      expansionsFormed := (Arena.alloc_facts mirrors.expansionsFormed e).1 }⟩

lemma Graph.host?_of_expansion? {g : Graph} {id : Handle} {e : Expansion}
    (found : g.expansion? id = some e) : g.host? id = some e.circuit.name := by
  rw [host?, found]
  rfl

namespace Expand

variable {id : Handle} {name : String} {block : Nat} {link : String} {sites sites' : List CallSite}
  {c c' : Circuit}

lemma hostAt_mirrored (hosted : start.host? id = some name) {f : Expansion → Edit γ}
    (rest : ∀ (g : Graph) (e e' : Expansion), start.Later g → g.expansion? id = some e →
      e.circuit.name = name → g.host? id = some e.circuit.name → e.Mirrors style g.host? e' →
      Mirrored style g S (f e) (k e')) : Mirrored style start S (expansionAt id >>= f)
    (expansionAt id >>= k) := by
  refine expansionAt_mirrored fun g e e' later found eq => ?_
  have here := host?_of_expansion? found
  exact rest g e e' later found (some.inj (here.symm.trans (later.hosts hosted))) here eq

lemma setBlock_mirrored (hosted : start.host? id = some name) (places : lib.Places name block)
    (state : BlockState) :
    Mirrored style start (fun _ _ => True) (modifyAt id (·.setBlock block state))
      (modifyAt id (·.setBlock (style.move name block) state)) := by
  refine modifyAt_mirrored (fun _ => rfl) fun g e e' later found eq => ?_
  obtain rfl : e.circuit.name = name :=
    some.inj ((host?_of_expansion? found).symm.trans (later.hosts hosted))
  obtain ⟨_, _, inside⟩ := eq.place places
  exact eq.setBlock inside state

lemma materialize_mirrored (positional : lib.Positional) (hosted : start.host? id = some name)
    (places : lib.Places name block) :
    Mirrored style start (fun _ _ => True) (materialize lib id block)
      (materialize lib' id (style.move name block)) := by
  refine hostAt_mirrored hosted fun g e e' later found isName here eq => ?_
  subst isName
  obtain ⟨descriptor, isBlock, inside⟩ := eq.place places
  rw [eq.stateOf inside, eq.block? isBlock, eq.specialize, isBlock]
  cases e.stateOf block with
  | made => exact .pure trivial
  | nested => exact .pure trivial
  | unmade =>
    have assemblers : lib'.assembler? descriptor.blockType =
        lib.assembler? descriptor.blockType := by
      rw [Library.assembler?, Library.assembler?, style.assemblers]
    dsimp only [Block.rename]
    rw [assemblers]
    cases isAssembler : lib.assembler? descriptor.blockType with
    | some assemble =>
      obtain ⟨layout, isLayout⟩ := positional _ (lookup_mem isAssembler)
      obtain rfl : assemble = layout.assembler := isLayout
      have asm : Mirrors style e.circuit.name ⟨id, descriptor, e.specialize descriptor.arguments,
          lib.circuits⟩
          ⟨id, descriptor.rename (style.rename e.circuit.name), e.specialize descriptor.arguments,
            lib'.circuits⟩ :=
        ⟨rfl, rfl, rfl, style.signatures, fun link => .of_input eq.known isBlock⟩
      refine .bind_eq (layout.assembler_mirrored asm here) fun made => ?_
      rw [length_map]
      split
      · exact .fail (.refl _)
      · exact setBlock_mirrored here places _
    | none =>
      have both := style.circuits descriptor.blockType
      generalize lib.circuit? descriptor.blockType = callee, lib'.circuit? descriptor.blockType =
        callee' at both
      cases both with
      | none => exact .fail (.refl _)
      | some mirrors =>
        refine .bind_eq (nestedOutputs_mirrored here places mirrors.signature descriptor _ _)
          fun state => ?_
        exact setBlock_mirrored here places state

lemma blockOutput_mirrored (positional : lib.Positional) (hosted : start.host? id = some name)
    (places : lib.Places name block) (pin : Nat) :
    Mirrored style start Eq (blockOutput lib id block pin)
      (blockOutput lib' id (style.move name block) pin) := by
  refine .bind (materialize_mirrored positional hosted places) fun _ _ _ => ?_
  refine hostAt_mirrored hosted fun g e e' later found isName here eq => ?_
  subst isName
  obtain ⟨_, _, inside⟩ := eq.place places
  rw [eq.stateOf inside]
  cases e.stateOf block with
  | unmade => exact .pure rfl
  | made outs => exact live?_mirrored _
  | nested outs => exact live?_mirrored _

lemma resolveInput_mirrored (same : e.Mirrors style host e')
    (isSite : site.Mirrors style start.host? site') (i : Nat)
    (resolves : ∀ (g : Graph) (around link : String), start.Later g →
      g.host? site.expansion = some around → lib.Mentions around link →
      Mirrored style g Eq (resolve link) (resolve' (style.rename around link))) :
    Mirrored style start Eq (resolveInput e id site i resolve)
      (resolveInput e' id site' i resolve') := by
  obtain ⟨isExpansion, around, hosted, places, isPlace⟩ := isSite
  have restPack : e'.restPack = e.restPack := by
    cases same
    rfl
  rw [resolveInput, resolveInput, same.inputPins, restPack, isExpansion, isPlace]
  refine .bind_eq (live?_mirrored _) fun pack => ?_
  cases pack with
  | some pack => exact .pure rfl
  | none =>
    refine hostAt_mirrored hosted fun g caller caller' later found isName here sameCaller => ?_
    subst isName
    obtain ⟨descriptor, isBlock, -⟩ := sameCaller.place places
    have mentions : ∀ link ∈ descriptor.inputs, lib.Mentions caller.circuit.name link :=
      fun link => .of_input sameCaller.known isBlock
    rw [isBlock, sameCaller.block? isBlock]
    simp only [map_some, getD_some, Block.rename, ← map_drop]
    split
    · rw [length_map]
      refine addOwned_mirrored (.same _) _ fun g' pack later' _ => ?_
      refine .bind (.forM (T := fun entry entry' =>
        entry' = (style.rename caller.circuit.name entry.1, entry.2)) ?_ ?_) fun _ _ _ => ?_
      · rw [zipIdx_map, forall₂_map_right_iff]
        exact forall₂_same.mpr fun _ _ => rfl
      · rintro ⟨link, pin⟩ _ mem rfl
        have isLink : link ∈ descriptor.inputs := mem_of_mem_drop (fst_mem_of_mem_zipIdx mem)
        refine .bind_eq (resolves g' _ link (later.trans later') (later'.hosts here)
          (mentions link isLink)) fun src => ?_
        exact .modifyGraph fun _ _ _ mirrors => ⟨mirrors.connect .., .connect ..⟩
      · exact .bind (note_mirrored fun _ _ _ _ _ => rfl) fun _ _ _ => .pure rfl
    · rw [getElem?_map]
      cases isLink : descriptor.inputs[i]? with
      | none => exact .pure rfl
      | some link => exact resolves g _ link later here (mentions link (mem_of_getElem? isLink))

/-- Links are looked up in the same way, where inputs of the circuit are. -/
lemma resolveLink_mirrored (positional : lib.Positional) {start : Graph}
    {sites sites' : List CallSite}
    (both : Forall₂ (CallSite.Mirrors style start.host?) sites sites') {id : Handle}
    {name link : String}
    (hosted : start.host? id = some name) (mentions : lib.Mentions name link) :
    Mirrored style start Eq (resolveLink lib sites id link)
      (resolveLink lib' sites' id (style.rename name link)) := by
  rw [resolveLink.eq_def, resolveLink.eq_def]
  dsimp only
  rw [style.isEmpty mentions]
  split
  · exact .pure rfl
  refine hostAt_mirrored hosted fun g e e' later found isName here eq => ?_
  subst isName
  have mentioned : link ∈ e.circuit.mentioned := by
    obtain ⟨c, known, mentioned⟩ := mentions
    cases known.symm.trans eq.known
    exact mentioned
  rw [eq.lookup mentioned, eq.name]
  cases target : e.links.lookup link with
  | none => exact .fail ⟨rfl, rfl⟩
  | some target' =>
    cases target' with
    | argument i => exact .bind_eq (resolveArgument_mirrored id i) fun _ => .pure rfl
    | output block pin =>
      exact blockOutput_mirrored positional here ⟨e.circuit, eq.known, eq.inside target⟩ pin
    | input i =>
      cases both with
      | nil =>
        cases eq
        exact .pure rfl
      | @cons site site' outer outer' isSite isOuter =>
        have more : ∀ {g' : Graph} {site site' : CallSite}, start.Later g' →
            site.Mirrors style start.host? site' → site.Mirrors style g'.host? site' := by
          rintro g' site site' later' ⟨isExpansion, around, hosted, rest⟩
          exact ⟨isExpansion, around, later'.hosts hosted, rest⟩
        refine resolveInput_mirrored eq (more later isSite) i
          fun g' around link later' hosted' mentions' => ?_
        rw [isSite.1]
        exact resolveLink_mirrored positional (isOuter.imp fun _ _ => more (later.trans later'))
          hosted' mentions'

lemma link_mirrored (positional : lib.Positional) (hosted : start.host? id = some name)
    (mentions : lib.Mentions name link) :
    Mirrored style start Eq (Expand.link lib id link)
      (Expand.link lib' id (style.rename name link)) := by
  intro w w' mirrors
  have both : Forall₂ (CallSite.Mirrors style w.graph.host?)
      ((w.graph.expansion? id).elim [] parents) ((w'.graph.expansion? id).elim [] parents) := by
    rcases mirrors.graph.expansion? id with ⟨gone, gone'⟩ | ⟨e, e', found, found', same⟩
    · rw [gone, gone']
      exact .nil
    · rw [found, found']
      exact same.sites
  obtain ⟨outcome, after⟩ :=
    resolveLink_mirrored positional both (mirrors.later.hosts hosted) mentions w w'
    ⟨mirrors.graph, mirrors.store, .refl _⟩
  exact ⟨outcome, after.graph, after.store, mirrors.later.trans after.later⟩

lemma checkAncestors_mirrored {callee callee' : Circuit} (eq : callee'.name = callee.name)
    (ids : List Handle) :
    Mirrored style start (fun _ _ => True) (checkAncestors callee ids)
      (checkAncestors callee' ids) := by
  induction ids generalizing start with
  | nil => exact .pure trivial
  | cons id outer ih =>
    rw [checkAncestors]
    refine expansionAt_mirrored fun g e e' _ _ mirrors => ?_
    rw [mirrors.name, eq]
    split
    · exact .fail (.refl _)
    · exact ih

lemma allocExpansion_mirrored (known : lib.circuit? c.name = some c)
    (known' : lib'.circuit? c.name = some c')
    (both : Forall₂ (CallSite.Mirrors style start.host?) sites sites') (args : List String)
    {f : Handle → Edit γ} {k : Handle → Edit δ}
    (rest : ∀ (g : Graph) (id : Handle), start.Later g → g.host? id = some c.name →
      Mirrored style g S (f id) (k id)) : Mirrored style start S
      (do
        let e ← make c sites args
        let id ← onGraph fun g =>
          let (id, expansions) := g.expansions.alloc e
          (id, { g with expansions })
        f id)
      (do
        let e ← make c' sites' args
        let id ← onGraph fun g =>
          let (id, expansions) := g.expansions.alloc e
          (id, { g with expansions })
        k id) := by
  have mirrors := style.mirrors known known'
  have made : AlikeOutcome (fun e e' : Expansion => e.circuit.name = c.name ∧
      e.Mirrors style start.host? e')
      (make c sites args) (make c' sites' args) := by
    have links := mirrors.links
    rw [make, make]
    generalize isLinks : linkMap c = result, isLinks' : linkMap c' = result' at links
    cases links with
    | error alike => exact .error alike
    | ok =>
      refine .ok
        ⟨rfl, .mk known known' both isLinks isLinks' Array.size_replicate Array.size_replicate ?_⟩
      intro i isIndex
      have inside : i < c.blocks.length := by simpa using isIndex
      have inside' := lt_of_getElem? (mirrors.blocks (getElem?_eq_getElem inside))
      rw [Array.getElem?_replicate, Array.getElem?_replicate, if_pos inside, if_pos inside']
  refine .bind (.ofExcept made) fun e e' both => ?_
  obtain ⟨isName, same⟩ := both
  refine .onGraph fun g g' later mirrors => ?_
  obtain ⟨sameId, allocated⟩ := mirrors.allocExpansion (same.mono later.hosts)
  obtain ⟨later', hosted⟩ := Later.allocExpansion mirrors.expansionsFormed e
  refine ⟨allocated, later', ?_⟩
  rw [sameId]
  exact rest _ _ (later.trans later') (hosted.trans (congrArg some isName))

lemma expandNested_mirrored (hosted : start.host? id = some name) (places : lib.Places name block) :
    Mirrored style start Eq (expandNested lib id block)
      (expandNested lib' id (style.move name block)) := by
  refine hostAt_mirrored hosted fun g e e' later found isName here eq => ?_
  subst isName
  obtain ⟨descriptor, isBlock, inside⟩ := eq.place places
  rw [isBlock, eq.block? isBlock, eq.specialize]
  dsimp only [getD_some, Block.rename]
  have both := style.circuits descriptor.blockType
  generalize isCallee : lib.circuit? descriptor.blockType = callee,
    isCallee' : lib'.circuit? descriptor.blockType = callee' at both
  cases both with
  | none => exact .fail (.refl _)
  | @some callee callee' mirrors =>
    have calleeName : callee.name = descriptor.blockType := Library.circuit?_name isCallee
    rw [← calleeName] at isCallee isCallee'
    have ids : e'.parents.map CallSite.expansion = e.parents.map CallSite.expansion := by
      have sites := eq.sites
      generalize e.parents = parents, e'.parents = parents' at sites
      induction sites with
      | nil => rfl
      | cons isSite _ ih => rw [map_cons, map_cons, isSite.1, ih]
    have sites : Forall₂ (CallSite.Mirrors style g.host?) (⟨id, block⟩ :: e.parents)
        (⟨id, style.move e.circuit.name block⟩ :: e'.parents) :=
      .cons ⟨rfl, e.circuit.name, here, places, rfl⟩ eq.sites
    rw [ids]
    refine .bind (checkAncestors_mirrored (eq_of_signature mirrors.signature).1 _) fun _ _ _ => ?_
    refine allocExpansion_mirrored isCallee isCallee' sites _ fun g' child later' _ => ?_
    refine .bind (modifyAt_mirrored (fun e => ?_) fun g'' e₂ e₂' later'' found' same' => ?_)
      fun _ _ _ => .pure rfl
    · cases e.stateOf block <;> rfl
    · have isName : e₂.circuit.name = e.circuit.name :=
        some.inj ((host?_of_expansion? found').symm.trans (later''.hosts (later'.hosts here)))
      rw [← isName] at places ⊢
      obtain ⟨_, _, inside'⟩ := same'.place places
      rw [same'.stateOf inside']
      cases e₂.stateOf block with
      | unmade => exact same'
      | made => exact same'
      | nested outs hidden => exact same'.setBlock inside' _

lemma childOf_mirrored (hosted : start.host? id = some name) (places : lib.Places name block)
    (child : Option Handle) :
    Mirrored style start Eq (childOf lib id block child)
      (childOf lib' id (style.move name block) child) := by
  cases child with
  | none => exact expandNested_mirrored hosted places
  | some child =>
    intro w w' mirrors
    have ran : ∀ (lib : Library) (block : Nat) (w : Workspace),
        (childOf lib id block (some child)).run w =
        (if w.graph.expansions.contains child then Pure.pure child else
          expandNested lib id block).run w :=
      fun _ _ _ => rfl
    rw [ran, ran, mirrors.graph.expansions.contains child]
    split
    · exact ⟨.ok rfl, mirrors⟩
    · exact expandNested_mirrored hosted places w w' mirrors

lemma nestedOutput_mirrored (positional : lib.Positional) (hosted : start.host? id = some name)
    (places : lib.Places name block) (pin : Nat) :
    Mirrored style start Eq (nestedOutput lib id block pin)
      (nestedOutput lib' id (style.move name block) pin) := by
  refine hostAt_mirrored hosted fun g e e' later found isName here eq => ?_
  subst isName
  obtain ⟨_, _, inside⟩ := eq.place places
  rw [eq.stateOf inside]
  cases e.stateOf block with
  | unmade => exact .pure rfl
  | made => exact .pure rfl
  | nested outs hidden child =>
    refine .bind_eq (childOf_mirrored here places child) fun child => ?_
    refine expansionAt_mirrored fun g' c c' _ found' sameChild => ?_
    have expanding : c'.expanding = c.expanding := by
      cases sameChild
      rfl
    have here' := host?_of_expansion? found'
    have marks : ∀ flag : Bool,
        Mirrored style g' (fun _ _ => True) (modifyAt child fun e => { e with expanding := flag })
        (modifyAt child fun e => { e with expanding := flag }) :=
        fun _ => note_mirrored fun _ _ _ _ _ => rfl
    rw [expanding, sameChild.outputPins]
    split
    · exact .fail (.refl _)
    · cases isOutput : c.circuit.outputPins.name? pin with
      | none => exact .pure rfl
      | some link =>
        have isLink : link ∈ c.circuit.outputPins.names := by
          obtain ⟨declared, found, rfl⟩ := map_eq_some_iff.mp isOutput
          exact mem_map_of_mem (mem_of_getElem? found)
        have resolved : Mirrored style g' Eq (Expand.link lib child link)
            (Expand.link lib' child (style.rename c.circuit.name link)) :=
          link_mirrored positional here' (.of_output sameChild.known isLink)
        rw [sameChild.circuit.outputs link isLink] at resolved
        refine .bind (marks true) fun _ _ _ => .bind (.attempt resolved) fun result result' alike =>
          ?_
        exact .bind (marks false) fun _ _ _ => .ofExcept alike

lemma addRootNodes_mirrored (known : lib.circuit? c.name = some c)
    (mirrors : c.Mirrors (style.rename c.name) (style.move c.name) c')
    (hosted : start.host? id = some c.name) :
    Mirrored style start Eq (addRootNodes id c) (addRootNodes id c') := by
  obtain ⟨isName, inputs, isOutputs, -⟩ := eq_of_signature mirrors.signature
  have outputPins : c'.outputPins = c.outputPins := congrArg Pins.mk isOutputs
  rw [addRootNodes, addRootNodes, inputs, outputPins, isName]
  have added : ∀ i : Nat, Mirrored style start Eq (addOwned (.param i) 0 id)
      (addOwned (.param i) 0 id) := by
    intro i
    rw [← bind_pure (addOwned (.param i) 0 id)]
    exact addOwned_mirrored (.same _) 0 fun _ _ _ _ => .pure rfl
  refine .bind_eq (.mapM _ fun i _ => added i) fun params => ?_
  refine .bind (.mapM _ fun link isLink => ?_) fun outs outs' isOutputs => ?_
  · refine addOwned_mirrored (.same _) 1 fun g n later owned => ?_
    refine .bind (.modifyGraph fun g' g'' later' eq => ⟨?_, .addPendingLink ..⟩) fun _ _ _ =>
      .pure rfl
    have pending : Pending.Mirrors style c.name (.link link) (.link link) := by
      have renamed : Pending.Mirrors style c.name (.link link) (.link (style.rename c.name link)) :=
        .link (.of_output known isLink)
      rwa [mirrors.outputs link isLink] at renamed
    exact eq.addPendingLink rfl fun _ =>
      waits_of_owner (later'.owners owned) (later'.hosts (later.hosts hosted)) pending
  · subst isOutputs
    refine .bind (.modifyGraph fun g g' _ eq => ⟨eq.note id fun _ _ _ _ _ => rfl, ?_⟩) fun _ _ _ =>
      .pure rfl
    exact .modifyExpansion g id fun _ => rfl

lemma instantiate_mirrored (name : String) (args : List String) :
    Mirrored style start Eq (instantiate lib name args) (instantiate lib' name args) := by
  have both := style.circuits name
  rw [instantiate, instantiate]
  generalize isCircuit : lib.circuit? name = c, isCircuit' : lib'.circuit? name = c' at both
  cases both with
  | none => exact .fail (.refl _)
  | @some c c' mirrors =>
    obtain rfl : c.name = name := Library.circuit?_name isCircuit
    exact allocExpansion_mirrored isCircuit isCircuit' .nil args fun g id _ hosted =>
      addRootNodes_mirrored isCircuit mirrors hosted

end Expand

end Blockflow
