import Blockflow.Proofs.Compile.Mirrors
import Blockflow.Proofs.Expand.BlockTypes
import Blockflow.Proofs.Expand.Mirroring
import Blockflow.Proofs.Session.Compilation

/-!
# The way a circuit is stated

Programs do not depend on how circuits are stated: blocks can be moved, links between blocks called
otherwise, and blocks that nothing refers to added, in any circuits of a library. Settling goes
through the same steps in both libraries, and the compiler then meets graphs that mirror each other.
-/

namespace Blockflow

open Graph Workspace Session Expand Diagnostic Library

variable {lib lib' : Library} {style : Restyling lib lib'} {start : Graph}

namespace Diagnostic.Mirrors

variable {d d' : Diagnostic}

lemma atPin (alike : d.Mirrors d') (pin : Nat) : (d.atPin pin).Mirrors (d'.atPin pin) :=
  ⟨alike.1, by rw [Diagnostic.atPin, Diagnostic.atPin, alike.2]⟩

lemma locate (mirrors : g.Mirrors style g') (alike : d.Mirrors d') (id : Handle) :
    (locate g id d).Mirrors (locate g' id d') := by
  rw [Workspace.locate, Workspace.locate, mirrors.circuitOf?]
  split
  · exact ⟨alike.1, by simp only [inCircuit, atNode, alike.2]⟩
  · exact ⟨alike.1, by simp only [atNode, alike.2]⟩

end Diagnostic.Mirrors

/-! ## Settling -/

namespace Workspace

variable {id owner : Handle} {name : String} {w w' : Workspace}

lemma resolvePin_mirrored (positional : lib.Positional) (ms : Methods)
    (hosted : start.host? owner = some name) (pin : Nat)
    (mirrors : Pending.Mirrors style name pending pending') :
    Mirrored style start (fun _ _ => True) (resolvePin ⟨lib, ms⟩ id owner pin pending)
      (resolvePin ⟨lib', ms⟩ id owner pin pending') := by
  refine Mirrored.mapFailure ?_ fun d d' alike => alike.atPin pin
  have connected : ∀ {find find' : Edit (Option Handle)}, Mirrored style start Eq find find' →
      Mirrored style start (fun _ _ => True)
        (find >>= fun src => Edit.modifyGraph (·.connect id pin src))
        (find' >>= fun src => Edit.modifyGraph (·.connect id pin src)) := by
    refine fun eq => .bind eq fun src src' isSource => ?_
    subst isSource
    exact .modifyGraph fun _ _ _ mirrors => ⟨mirrors.connect .., .connect ..⟩
  cases mirrors with
  | link mentions => exact connected (link_mirrored positional hosted mentions)
  | nestedOutput places output =>
    exact connected (nestedOutput_mirrored positional hosted places output)

lemma resolvePins_mirrored (positional : lib.Positional) (ms : Methods)
    (both : List.Forall₂ (Waits style start.host? (some owner)) entries entries')
    (mirrors : w.Mirrors style start w') :
    AlikeOutcome (fun _ _ => True) (resolvePins ⟨lib, ms⟩ id owner entries w).1
        (resolvePins ⟨lib', ms⟩ id owner entries' w').1 ∧
      (resolvePins ⟨lib, ms⟩ id owner entries w).2.Mirrors style start
        (resolvePins ⟨lib', ms⟩ id owner entries' w').2 := by
  induction both generalizing w w' with
  | nil => exact ⟨.ok trivial, mirrors⟩
  | @cons entry entry' entries entries' waits _ ih =>
    obtain ⟨pin, pending⟩ := entry
    obtain ⟨pin', pending'⟩ := entry'
    obtain ⟨rfl, _, name, isOwner, hosted, same⟩ := waits
    cases isOwner
    obtain ⟨first, after⟩ := resolvePin_mirrored positional ms hosted pin' same w w' mirrors
    obtain ⟨others, last⟩ := ih after
    rw [resolvePins_cons, resolvePins_cons]
    refine ⟨?_, last⟩
    generalize ((resolvePin ⟨lib, ms⟩ id owner pin' pending).run w).1 = result,
      ((resolvePin ⟨lib', ms⟩ id owner pin' pending').run w').1 = result' at first
    cases first with
    | ok => exact others
    | error alike => exact .error alike

lemma resolvePending_mirrored (positional : lib.Positional) (ms : Methods)
    (mirrors : w.Mirrors style start w') :
    AlikeOutcome (fun _ _ => True) (resolvePending ⟨lib, ms⟩ id w).1
      (resolvePending ⟨lib', ms⟩ id w').1 ∧
      (resolvePending ⟨lib, ms⟩ id w).2.Mirrors style start
        (resolvePending ⟨lib', ms⟩ id w').2 := by
  rw [resolvePending_eq, resolvePending_eq]
  rcases mirrors.graph.node? id with ⟨gone, gone'⟩ | ⟨n, n', found, found', same⟩
  · rw [gone, gone']
    exact ⟨.ok trivial, mirrors⟩
  · rw [found, found']
    cases same with
    | @mk _ pending' _ waits =>
      dsimp only
      generalize n.pending = pending at waits
      cases waits with
      | nil => exact ⟨.ok trivial, mirrors⟩
      | cons waits rest =>
        have all := List.Forall₂.cons waits rest
        obtain ⟨-, owner, -, isOwner, -⟩ := waits
        rw [isOwner] at all ⊢
        obtain ⟨outcome, after⟩ := resolvePins_mirrored positional ms all
          ⟨mirrors.graph, mirrors.store, .refl w.graph⟩
        exact ⟨outcome, after.graph, after.store, mirrors.later.trans after.later⟩

lemma evaluate_mirrored (ms : Methods) :
    Mirrored style start Eq (evaluate ⟨lib, ms⟩ id) (evaluate ⟨lib', ms⟩ id) := by
  intro w w' mirrors
  rw [evaluate_eq, evaluate_eq]
  rcases mirrors.graph.node? id with ⟨gone, gone'⟩ | ⟨n, n', found, found', same⟩
  · rw [gone, gone']
    exact ⟨.ok rfl, mirrors⟩
  · rw [found, found']
    dsimp only
    rw [mirrors.graph.evaluate ms id same]
    exact Mirrored.onStore _ w w' mirrors

lemma conclude_mirrors (mirrors : g.Mirrors style g') (id : Handle)
    (alike : AlikeOutcome Eq result result') :
    (conclude g id result).Mirrors style (conclude g' id result') := by
  cases alike with
  | ok eq =>
    subst eq
    exact mirrors.updateOutput id _
  | error alike => exact (mirrors.report (alike.locate mirrors id)).updateOutput id none

lemma prepare_mirrors (positional : lib.Positional) (ms : Methods) (id : Handle)
    (mirrors : w.Mirrors style start w') :
    AlikeOutcome (fun _ _ => True) (w.prepare ⟨lib, ms⟩ id).1 (w'.prepare ⟨lib', ms⟩ id).1 ∧
      (w.prepare ⟨lib, ms⟩ id).2.Mirrors style start (w'.prepare ⟨lib', ms⟩ id).2 := by
  have cleared : (w.cleared id).Mirrors style start (w'.cleared id) :=
    ⟨mirrors.graph.clearNode id, mirrors.store, mirrors.later.trans (.of_forms rfl fun _ => rfl)⟩
  obtain ⟨resolved, after⟩ := resolvePending_mirrored positional ms cleared
  refine ⟨resolved, after.graph.edit id (fun _ _ _ => rfl) fun _ => rfl, after.store,
    after.later.trans ?_⟩
  exact .of_forms rfl (form?_modifyNode_same _ id _ fun _ => rfl)

lemma process_mirrors (positional : lib.Positional) (ms : Methods) (id : Handle)
    (mirrors : w.Mirrors style start w') :
    (w.process ⟨lib, ms⟩ id).Mirrors style start (w'.process ⟨lib', ms⟩ id) := by
  rw [process_eq, process_eq, mirrors.graph.contains]
  split
  · exact mirrors
  have computed : AlikeOutcome Eq (compute ⟨lib, ms⟩ id (w.prepare ⟨lib, ms⟩ id)).1
      (compute ⟨lib', ms⟩ id (w'.prepare ⟨lib', ms⟩ id)).1 ∧
      (compute ⟨lib, ms⟩ id (w.prepare ⟨lib, ms⟩ id)).2.Mirrors style start
        (compute ⟨lib', ms⟩ id (w'.prepare ⟨lib', ms⟩ id)).2 := by
    have prepared := prepare_mirrors positional ms id mirrors
    generalize w.prepare ⟨lib, ms⟩ id = ready, w'.prepare ⟨lib', ms⟩ id = ready' at prepared
    obtain ⟨result, u⟩ := ready
    obtain ⟨result', u'⟩ := ready'
    obtain ⟨outcome, after⟩ := prepared
    cases outcome with
    | ok => exact evaluate_mirrored ms u u' after
    | error alike => exact ⟨.error alike, after⟩
  obtain ⟨outcome, after⟩ := computed
  exact ⟨conclude_mirrors after.graph id outcome, after.store, after.later.trans
    (.of_forms (host?_of_expansions (expansions_conclude _ id _)) (form?_conclude _ id _))⟩

lemma tick_mirrors (positional : lib.Positional) (ms : Methods) (steps : Nat)
    (mirrors : w.Mirrors style start w') :
    (w.tick ⟨lib, ms⟩ steps).Mirrors style start (w'.tick ⟨lib', ms⟩ steps) := by
  induction steps generalizing w w' with
  | zero => exact mirrors
  | succ steps ih =>
    rw [tick, tick, mirrors.graph.worklist]
    cases w.graph.worklist.pop? with
    | none => exact mirrors
    | some popped =>
      obtain ⟨id, worklist⟩ := popped
      refine ih (process_mirrors positional ms id ⟨{ mirrors.graph with worklist := rfl },
        mirrors.store, ?_⟩)
      exact mirrors.later.trans (.of_forms rfl fun _ => rfl)

lemma settle_mirrors (positional : lib.Positional) (ms : Methods) (limit : Nat)
    (mirrors : w.Mirrors style start w') :
    (w.settle ⟨lib, ms⟩ limit).2.Mirrors style start (w'.settle ⟨lib', ms⟩ limit).2 := by
  have after := tick_mirrors positional ms limit mirrors
  rw [settle_eq, settle_eq, isSettled, isSettled, after.graph.worklist]
  split
  · exact after
  · exact ⟨after.graph.report (.refl _), after.store,
      after.later.trans (.of_forms rfl fun _ => rfl)⟩

end Workspace

/-! ## Programs -/

lemma Graph.Mirrors.empty (style : Restyling lib lib') : ({} : Graph).Mirrors style {} where
  nodes := ⟨rfl, rfl, rfl, fun _ => .none⟩
  expansions := ⟨rfl, rfl, rfl, fun _ => .none⟩
  nodesFormed := Arena.wellFormed_empty
  expansionsFormed := Arena.wellFormed_empty
  worklist := rfl
  diagnostics := .nil
  previews := rfl

lemma Graph.Mirrors.definitions {g g' : Graph} (mirrors : g.Mirrors style g') :
    List.Forall₂ Diagnostic.Mirrors g.diagnostics.definitions g'.diagnostics.definitions :=
  List.rel_filter (fun d d' alike => by
    show (d.kind == _) ↔ (d'.kind == _)
    rw [alike.1]) mirrors.diagnostics

namespace Session

lemma refused_iff (failure failure' : CompileFailure) (prog : Program) :
    (Except.error failure : Except CompileFailure Program) = .ok prog ↔
      (Except.error failure' : Except CompileFailure Program) = .ok prog := ⟨nofun, nofun⟩

/-- Compiling a circuit ends in the same way for all ways to state the circuits. -/
lemma compileFresh_restated (s : Session) (positional : s.library.Positional)
    (restated : s.library.Restated lib') (name : String) :
    ∃ result, ({ s with library := lib' } : Session).compileFresh name =
        (result, { (s.compileFresh name).2 with library := lib' }) ∧
      ∀ prog, (s.compileFresh name).1 = .ok prog ↔ result = .ok prog := by
  obtain ⟨style⟩ := restated.restyling
  have started : Mirrors style ({} : Graph) { store := s.store } { store := s.store } :=
    ⟨.empty style, rfl, .refl _⟩
  have made := instantiate_mirrored name [] _ _ started
  rw [compileFresh, compileFresh]
  generalize (instantiate s.library name []).run { store := s.store } = outcome,
    (instantiate lib' name []).run { store := s.store } = outcome' at made
  obtain ⟨result, w⟩ := outcome
  obtain ⟨result', w'⟩ := outcome'
  obtain ⟨alike, after⟩ := made
  cases alike with
  | @error d d' =>
    refine ⟨.error ⟨name, [d']⟩, ?_, refused_iff _ _⟩
    dsimp only
    rw [after.store]
  | @ok root _ sameRoot =>
    subst sameRoot
    have settled := settle_mirrors positional s.methods s.config.settleLimit after
    dsimp only [environment]
    generalize (w.settle ⟨s.library, s.methods⟩ s.config.settleLimit) = done,
      (w'.settle ⟨lib', s.methods⟩ s.config.settleLimit) = done' at settled
    obtain ⟨_, u⟩ := done
    obtain ⟨_, u'⟩ := done'
    have problems := settled.graph.definitions
    obtain ⟨sameResult, sameSlots⟩ := Compile.compile_mirrors settled.graph root s.slots
    generalize u.graph.diagnostics.definitions = found, u'.graph.diagnostics.definitions =
      found' at problems
    cases problems with
    | @cons first first' rest rest' =>
      refine ⟨.error ⟨name, first' :: rest'⟩, ?_, refused_iff _ _⟩
      rw [settled.store]
    | nil =>
      generalize Compile.compile u.graph root s.slots = compiled,
        Compile.compile u'.graph root s.slots = compiled' at sameResult sameSlots
      obtain ⟨prog, g, slots⟩ := compiled
      obtain ⟨prog', g', slots'⟩ := compiled'
      obtain rfl : prog' = prog := sameResult
      obtain rfl : slots' = slots := sameSlots
      exact ⟨_, by rw [settled.store], fun _ => .rfl⟩

end Session

def addOne : Circuit where
  name := "addOne"
  inputs := ["x"]
  outputs := ["y"]
  blocks := [{ blockType := "int", outputs := ["one"], arguments := ["1"] },
    { blockType := "add", inputs := ["x", "one"], outputs := ["y"] }]

/-- The same with the blocks the other way round, another name for the constant, and a block that
makes no sense. -/
def addOneOtherwise : Circuit where
  name := "addOne"
  inputs := ["x"]
  outputs := ["y"]
  blocks := [{ blockType := "add", inputs := ["x", "step"], outputs := ["y"] },
    { blockType := "unheard of", inputs := ["nowhere"], outputs := ["unused"] },
    { blockType := "int", outputs := ["step"], arguments := ["1"] }]

lemma addOne_restated : addOne.Restated addOneOtherwise := by
  refine ⟨fun link => if link = "one" then "step" else link,
    [{ blockType := "unheard of", inputs := ["nowhere"], outputs := ["unused"] }], rfl, rfl, rfl,
    rfl, ?_, ?_, ?_, ?_, ?_, ?_⟩
    <;> decide

/-- With a further block, which declares one link twice. -/
def addOneTwice : Circuit :=
  { addOne with blocks :=
    addOne.blocks ++ [{ blockType := "int", outputs := ["unused", "unused"] }] }

/-- A block type that looks at the name of its output. -/
def picky : Assembler := fun assembly =>
  if assembly.block.outputs = ["one"] then assembly.single .pack else .refuse .unresolvedOutput

/-- Packs what a block makes that calls its output so. -/
def pickyCircuit (link : String) : Circuit where
  name := "picky"
  inputs := []
  outputs := ["y"]
  blocks := [{ blockType := "picky", outputs := [link] },
    { blockType := "pack", inputs := [link], outputs := ["y"] }]

def pickySession (link : String) : Session :=
  .make ((Library.builtin.register "picky" picky).insert (pickyCircuit link))

end Blockflow
