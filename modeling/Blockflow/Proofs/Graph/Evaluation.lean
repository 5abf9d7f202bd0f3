import Blockflow.Graph.Settle
import Blockflow.Proofs.Native.Failures

/-!
# Evaluating nodes

Evaluating a node looks at what it computes, at the values of its sources and at its preview, and at
nothing else of the graph. Where natives are pure, it can be repeated in any later store.
-/

namespace Blockflow

open List Store

open Value (Alike AllAlike)

/-- The pins of a node that need a value for the node to show one. -/
def Behavior.needs : Behavior → Nat → List Nat
  | .const _, _ | .param _, _ | .call _, _ => []
  | .loopBegin, _ | .loopEnd, _ | .pass, _ | .nested .., _ | .unpack _, _ => [0]
  | .switch, _ => [1]
  | .pack, pins | .virtual _, pins | .op _, pins => range pins

/-- The same computation, up to the buffers of a constant. -/
inductive Behavior.Alike : Behavior → Behavior → Prop where
  | const {a b : Value} (alike : a.Alike b) : Behavior.Alike (.const a) (.const b)
  | same (behavior : Behavior) : Behavior.Alike behavior behavior

namespace Behavior.Alike

lemma symm {a b : Behavior} (alike : a.Alike b) : b.Alike a := by
  cases alike with
  | const alike => exact .const alike.symm
  | same => exact .same _

lemma trans {a b c : Behavior} (first : a.Alike b) (second : b.Alike c) : a.Alike c := by
  cases first with
  | same => exact second
  | const alike =>
    cases second with
    | const alike' => exact .const (alike.trans alike')
    | same => exact .const alike

end Behavior.Alike

/-- A native that names no node in its failures: it knows of none. -/
def Native.Placeless (native : Native) : Prop :=
  ∀ vs, (native.call vs).FailsWith fun d => d.locator.node = none

namespace Graph

variable {ms : Methods} {g g' : Graph} {n n' : Node}

/-- What the pins of a node read. -/
def readings (g : Graph) (n : Node) : List (Option Value) := n.inputs.map (·.bind g.output?)

lemma inputValue?_eq (g : Graph) (n : Node) (pin : Nat) :
    g.inputValue? n pin = (g.readings n)[pin]?.join := by
  rw [inputValue?, Node.source?, readings, getElem?_map]
  cases n.inputs[pin]? with
  | none => rfl
  | some src => rfl

lemma inputValues?_eq (g : Graph) (n : Node) : g.inputValues? n = (g.readings n).mapM id := by
  rw [inputValues?, readings]
  induction n.inputs with
  | nil => rfl
  | cons src sources ih => rw [mapM_cons, map_cons, mapM_cons, ih]; rfl

/-- The same evaluation in another graph, where the pins read the same. -/
lemma evaluate_congr {id : Handle}
    (behavior : n'.behavior = n.behavior) (eq : g'.readings n' = g.readings n)
    (preview : g'.previews.lookup id = g.previews.lookup id) :
    g'.evaluate ms id n' = g.evaluate ms id n := by
  have pins : ∀ pin, g'.inputValue? n' pin = g.inputValue? n pin := by
    intro pin
    rw [inputValue?_eq, inputValue?_eq, eq]
  have vs : g'.inputValues? n' = g.inputValues? n := by
    rw [inputValues?_eq, inputValues?_eq, eq]
  rw [evaluate, evaluate, behavior]
  simp only [pins, vs, preview]

lemma evaluate_pass {id : Handle} (isPass : n.isPass) :
    g.evaluate ms id n = pure (g.inputValue? n 0) := by
  rw [Node.isPass, Node.kind] at isPass
  rw [evaluate]
  cases computes : n.behavior with
  | pass | nested | loopBegin | loopEnd => rfl
  | _ =>
    rw [computes] at isPass
    cases isPass

/-- Both show nothing, or values that differ at most in their buffers. -/
abbrev OutputAlike : Option Value → Option Value → Prop := Option.Rel Alike

lemma OutputAlike.refl (output : Option Value) : OutputAlike output output := by
  cases output with
  | none => exact .none
  | some v => exact .some rfl

lemma OutputAlike.symm {output output' : Option Value} (alike : OutputAlike output output') :
    OutputAlike output' output := by
  cases alike with
  | none => exact .none
  | some alike => exact .some alike.symm

lemma inputValues?_alike (length : n'.inputs.length = n.inputs.length)
    (reads : ∀ pin < n.inputs.length, OutputAlike (g.inputValue? n pin) (g'.inputValue? n' pin)) :
    Option.Rel AllAlike (g.inputValues? n) (g'.inputValues? n') := by
  rw [inputValues?_eq, inputValues?_eq]
  have pinwise : Forall₂ OutputAlike (g.readings n) (g'.readings n') := by
    refine forall₂_iff_get.mpr ⟨by rw [readings, readings, length_map, length_map, length], ?_⟩
    intro pin inside inside'
    have alike := reads pin (by rwa [readings, length_map] at inside)
    rw [inputValue?_eq, inputValue?_eq, getElem?_eq_getElem inside,
      getElem?_eq_getElem inside'] at alike
    exact alike
  generalize g.readings n = outs at pinwise
  generalize g'.readings n' = outs' at pinwise
  induction pinwise with
  | nil => exact .some rfl
  | @cons output output' outs outs' first _ rest =>
    rw [mapM_cons, mapM_cons]
    generalize outs.mapM id = vs at rest
    generalize outs'.mapM id = vs' at rest
    cases first with
    | none => exact .none
    | some alike =>
      cases rest with
      | none => exact .none
      | some alikes => exact .some (AllAlike.cons alike alikes)

/-- Where the pins that a node needs read alike, its evaluation ends alike, also in a later
store. -/
lemma evaluate_agree (arePure : ms.Pure) {id id' : Handle} (behavior : n.behavior.Alike n'.behavior)
    (isPure : ∀ native, n.behavior = .op native → native.Pure)
    (length : n'.inputs.length = n.inputs.length)
    (reads : ∀ pin ∈ n.behavior.needs n.inputs.length,
      OutputAlike (g.inputValue? n pin) (g'.inputValue? n' pin))
    (preview : ∀ i, n.behavior = .param i →
      OutputAlike (g.previews.lookup id) (g'.previews.lookup id')) :
    Agree OutputAlike (g.evaluate ms id n) (g'.evaluate ms id' n') := by
  have shown : ∀ {output output' : Option Value}, OutputAlike output output' →
      Agree OutputAlike (pure output) (pure output') := fun alike => .ofExcept (.ok alike)
  have made : ∀ {action action' : Action Value}, Agree Alike action action' →
      Agree OutputAlike (do return some (← action)) (do return some (← action')) := fun agree =>
    agree.bind (fun _ _ alike => .ofExcept (.ok (.some alike))) (fun _ => .pure _) fun _ => .pure _
  have vs : (∀ pin ∈ range n.inputs.length,
      OutputAlike (g.inputValue? n pin) (g'.inputValue? n' pin)) →
      Option.Rel AllAlike (g.inputValues? n) (g'.inputValues? n') := fun reads =>
    inputValues?_alike length fun pin inside => reads pin (mem_range.mpr inside)
  rw [evaluate, evaluate]
  generalize n.behavior = computes at behavior isPure reads preview
  generalize n'.behavior = computes' at behavior
  cases behavior with
  | const alike => exact shown (.some alike)
  | same =>
    cases computes with
    | const | call => exact shown (.refl _)
    | param i => exact shown (preview i rfl)
    | loopBegin | loopEnd | pass | nested => exact shown (reads 0 mem_cons_self)
    | switch => exact shown (reads 1 mem_cons_self)
    | pack =>
      generalize g.inputValues? n = inputs, g'.inputValues? n' = inputs' at vs
      cases vs reads with
      | none => exact shown .none
      | some alike => exact made (pack_agree alike)
    | unpack i =>
      have alike := reads 0 mem_cons_self
      generalize g.inputValue? n 0 = whole, g'.inputValue? n' 0 = whole' at alike
      cases alike with
      | none => exact shown .none
      | some alike =>
        refine made
          (.ofExcept (.of_ok (fun _ found => alike.element found) fun element found => ?_))
        obtain ⟨element', found', -⟩ := Alike.element alike.symm found
        exact ⟨element', found'⟩
    | «virtual» names =>
      dsimp only
      generalize g.inputValues? n = inputs, g'.inputValues? n' = inputs' at vs
      cases vs reads with
      | none => exact shown .none
      | some alike =>
        refine .afterSame (arePure.resolve_same names alike) ?_
        rintro ⟨native, args⟩ ⟨_, args'⟩ ⟨rfl, isPure, alike'⟩
        split
        · exact made (isPure.call alike')
        · exact shown .none
    | op native =>
      dsimp only
      generalize g.inputValues? n = inputs, g'.inputValues? n' = inputs' at vs
      cases vs reads with
      | none => cases native.isPure <;> exact shown .none
      | some alike =>
        cases native.isPure with
        | false => exact shown .none
        | true => exact made ((isPure native rfl).call alike)

lemma evaluate_steady (arePure : ms.Pure) (g : Graph) (id : Handle) (n : Node)
    (isPure : ∀ native, n.behavior = .op native → native.Pure) :
    Agree OutputAlike (g.evaluate ms id n) (g.evaluate ms id n) :=
  evaluate_agree arePure (.same _) isPure rfl (fun _ _ => .refl _) fun _ _ => .refl _

/-- Where no native names a node in its failures, no evaluation does. -/
lemma evaluate_fails (allPlaceless : ms.All Native.Placeless) (g : Graph) (id : Handle) (n : Node)
    (placeless : ∀ native, n.behavior = .op native → native.Placeless) :
    (g.evaluate ms id n).FailsWith fun d => d.locator.node = none := by
  have made : ∀ {action : Action Value}, action.FailsWith (fun d => d.locator.node = none) →
      (do return some (← action) : Action (Option Value)).FailsWith fun d =>
      d.locator.node = none :=
    fun fails => fails.bind fun _ => .pure _
  rw [evaluate]
  cases computes : n.behavior with
  | const | param | loopBegin | loopEnd | pass | nested | switch | call => exact .pure _
  | pack =>
    dsimp only
    split
    · exact made (.ofState _)
    · exact .pure _
  | unpack i =>
    dsimp only
    split
    next whole _ =>
      exact made (.ofExcept (whole.element_fails (fun _ _ => rfl) i))
    next => exact .pure _
  | virtual names =>
    dsimp only
    split
    next args _ =>
      refine .ofExcept_bind (ms.resolve_fails (fun _ _ => rfl) names args) fun found resolved => ?_
      split
      · exact made ((allPlaceless.resolve resolved) found.2)
      · exact .pure none
    next => exact .pure _
  | op native =>
    dsimp only
    split
    · exact made (placeless native computes _)
    · exact .pure _

end Graph

end Blockflow
