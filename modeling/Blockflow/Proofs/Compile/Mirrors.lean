import Blockflow.Compile.Basic
import Blockflow.Proofs.Expand.Mirrors

/-!
# Compiling circuits stated in other ways

Nothing that the compiler reads off a graph tells how the circuits are stated: graphs that mirror
each other have the same program.
-/

namespace Blockflow

open List

variable {lib lib' : Library} {style : Restyling lib lib'} {g g' : Graph}

namespace Node.Mirrors

variable {host : Handle → Option String} {n n' : Node}

lemma kind (same : n.Mirrors style host n') : n'.kind = n.kind := by
  cases same with
  | mk computes => exact computes.kind

lemma inputs (same : n.Mirrors style host n') : n'.inputs = n.inputs := by
  cases same
  rfl

lemma pins (same : n.Mirrors style host n') : n'.pending.map Prod.fst = n.pending.map Prod.fst := by
  cases same with
  | @mk _ pending' _ waits =>
    generalize n.pending = pending at waits
    induction waits with
    | nil => rfl
    | cons waits _ ih => rw [map_cons, map_cons, waits.1, ih]

end Node.Mirrors

namespace Compile

variable (mirrors : g.Mirrors style g')
include mirrors

lemma resolveWithin_mirrors (lookups : Nat) (id : Handle) :
    resolveWithin g' lookups id = resolveWithin g lookups id := by
  induction lookups generalizing id with
  | zero => rfl
  | succ lookups ih =>
    rw [resolveWithin, resolveWithin]
    rcases mirrors.node? id with ⟨gone, gone'⟩ | ⟨n, n', found, found', same⟩
    · rw [gone, gone']
    · have pending : n'.pending.isEmpty = n.pending.isEmpty := by
        rw [← isEmpty_map (f := Prod.fst), same.pins, isEmpty_map]
      rw [found, found']
      dsimp only
      rw [Node.isPass, Node.isPass, same.kind, pending, Node.source?, Node.source?, same.inputs]
      simp only [ih]

lemma resolve_mirrors : resolve g' = resolve g := by
  funext id
  rw [resolve, resolve, mirrors.nodes.size, resolveWithin_mirrors mirrors]

lemma kindOf_mirrors : kindOf g' = kindOf g := by
  funext id
  rw [kindOf, kindOf]
  rcases mirrors.node? id with ⟨gone, gone'⟩ | ⟨n, n', found, found', same⟩
  · rw [gone, gone']
  · rw [found, found']
    exact same.kind

lemma sourcesOf_mirrors : sourcesOf g' = sourcesOf g := by
  have resolved : ∀ (id : Handle) (kind : NodeKind) (pin : Nat) (inputs : List (Option Handle)),
      resolvePins g' id kind pin inputs = resolvePins g id kind pin inputs := by
    intro id kind pin inputs
    induction inputs generalizing pin with
    | nil => rfl
    | cons input inputs ih =>
      simp only [resolvePins, resolve_mirrors mirrors, ih]
  funext id
  rw [sourcesOf, sourcesOf]
  rcases mirrors.node? id with ⟨gone, gone'⟩ | ⟨n, n', found, found', same⟩
  · rw [gone, gone']
  · have pins := same.pins
    rw [found, found']
    dsimp only
    rw [same.kind, same.inputs]
    generalize n.pending = pending, n'.pending = pending' at pins
    rcases pending with _ | ⟨⟨pin, _⟩, _⟩ <;> rcases pending' with _ | ⟨⟨pin', _⟩, _⟩
    · exact resolved id n.kind 0 n.inputs
    · cases pins
    · cases pins
    · obtain rfl : pin' = pin := (cons.inj pins).1
      rfl

lemma walkSteps_mirrors : walkSteps g' = walkSteps g :=
  congrArg (foldl (· + ·) 1) (mirrors.nodes.map_toList (f := fun n => n.inputs.length + 1)
    (k := fun n => n.inputs.length + 1) fun _ _ same => by rw [same.inputs])

lemma enter_mirrors (walk : Walk) (id : Handle) : walk.enter g' id = walk.enter g id := by
  have closed : ∀ loops id sources, closeLoop g' loops id sources =
      closeLoop g loops id sources := by
    intro loops id sources
    rw [closeLoop, closeLoop, kindOf_mirrors mirrors]
  rw [Walk.enter, Walk.enter, sourcesOf_mirrors mirrors, kindOf_mirrors mirrors]
  simp only [closed]

lemma run_mirrors (isParam : Handle → Bool) (steps : Nat) (walk : Walk) :
    Walk.run g' isParam steps walk = Walk.run g isParam steps walk := by
  induction steps generalizing walk with
  | zero => rfl
  | succ steps ih =>
    rw [Walk.run, Walk.run]
    simp only [ih, enter_mirrors mirrors]

lemma walkOutputs_mirrors (isParam : Handle → Bool) (outs : List (Handle × String)) (walk : Walk) :
    walkOutputs g' isParam outs walk = walkOutputs g isParam outs walk := by
  induction outs generalizing walk with
  | nil => rfl
  | cons output outs ih =>
    have visit : ∀ (walk : Walk) (id : Handle), walk.visit g' isParam id =
        walk.visit g isParam id := by
      intro walk id
      rw [Walk.visit, Walk.visit, walkSteps_mirrors mirrors, enter_mirrors mirrors]
      simp only [run_mirrors mirrors]
    rw [walkOutputs, walkOutputs, resolve_mirrors mirrors]
    simp only [ih, visit]

lemma place_mirrors : place g' = place g := by
  have common : ∀ uses scope p, commonScope g' uses scope p = commonScope g uses scope p := by
    intro uses
    induction uses with
    | nil => exact fun _ _ => rfl
    | cons use uses ih =>
      intro scope p
      rw [commonScope, commonScope, useScope, useScope, kindOf_mirrors mirrors]
      simp only [ih]
  have nodes : placeNode g' = placeNode g := by
    funext order loops outs p id
    rw [placeNode, placeNode, kindOf_mirrors mirrors]
    simp only [common]
  funext order loops outs
  rw [place, place, nodes]

lemma plan_mirrors (root : Root) : plan g' root = plan g root := by
  rw [plan, plan]
  simp only [walkOutputs_mirrors mirrors, place_mirrors mirrors]

lemma instructionOf_mirrors (a : Addresses) (order : List Visit)
    (visit : Visit) : instructionOf g' a order visit = instructionOf g a order visit := by
  rw [instructionOf, instructionOf]
  rcases mirrors.node? visit.node with ⟨gone, gone'⟩ | ⟨n, n', found, found', same⟩
  · rw [gone, gone']
  · rw [found, found', Option.map_some, Option.map_some]
    cases same with
    | mk computes =>
      generalize n.behavior = computed at computes
      cases computes <;> rfl

lemma code_mirrors (plan : Plan) : code g' plan = code g plan := by
  have emitted : ∀ (a : Addresses) (order visits : List Visit), emit g' a order visits =
      emit g a order visits := by
    intro a order visits
    induction visits with
    | nil => rfl
    | cons visit visits ih => rw [emit, emit, instructionOf_mirrors mirrors, ih]
  rw [code, code, emitted]

lemma inlinedCircuits_mirrors : inlinedCircuits g' = inlinedCircuits g := by
  have listed := mirrors.expansions.map_toList (f := fun e => (e.parent?.isSome, e.circuit.name))
    (k := fun e => (e.parent?.isSome, e.circuit.name)) fun e e' same => by
      have nested : e'.parent?.isSome = e.parent?.isSome := by
        cases same with
        | @mk _ parents' _ _ _ _ sites =>
          rw [Expansion.parent?, Expansion.parent?]
          generalize e.parents = parents at sites
          cases sites <;> rfl
      rw [nested, same.name]
  have names : ∀ g : Graph, inlinedCircuits g = (((g.expansions.toList.map fun entry =>
        (entry.2.parent?.isSome, entry.2.circuit.name)).filter Prod.fst).map Prod.snd).foldl
          (fun names name => if name ∈ names then names else names ++ [name]) [] := by
    intro g
    rw [filter_map, map_map]
    rfl
  rw [names, names, listed]

/-- Graphs that mirror each other have the same program. -/
lemma compile_mirrors (root : Root) (slots : Slots) :
    (compile g' root slots).1 = (compile g root slots).1 ∧
      (compile g' root slots).2.2 = (compile g root slots).2.2 := by
  rw [compile, compile, plan_mirrors mirrors, inlinedCircuits_mirrors mirrors]
  cases plan g root with
  | error => exact ⟨rfl, rfl⟩
  | ok plan =>
    dsimp only
    rw [code_mirrors mirrors]
    rcases (code g plan).run { slots } with ⟨d | made, e⟩ <;> exact ⟨rfl, rfl⟩

end Compile

end Blockflow
