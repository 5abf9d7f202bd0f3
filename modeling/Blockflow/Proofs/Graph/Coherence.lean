import Blockflow.Proofs.Graph.Evaluation
import Blockflow.Proofs.Graph.Forms
import Blockflow.Proofs.Store.Identity

/-!
# Graphs over one heap

Outputs are compared by handles and buffers. This takes no two different values for the same as long
as all values of a graph come from one heap, and evaluating nodes keeps it so.
-/

namespace Blockflow

open Option

open Value (AllIn)
open Store (Tidy MakesTidy)

namespace Graph

def Constants (g : Graph) (heap : Heap) : Prop :=
  ∀ id form v, g.form? id = some form → form.behavior = .const v → v.In heap

structure ValuesIn (g : Graph) (heap : Heap) : Prop where
  constants : g.Constants heap
  outputs : ∀ {id n v}, g.node? id = some n → n.output = some v → v.In heap
  previews : ∀ {id v}, g.previews.lookup id = some v → v.In heap

variable {g : Graph} {heap known : Heap} {id : Handle} {n : Node}

namespace ValuesIn

lemma output? (holds : g.ValuesIn heap) (shown : g.output? id = some v) : v.In heap := by
  obtain ⟨n, live, output⟩ := bind_eq_some_iff.mp shown
  exact holds.outputs live output

lemma inputValue? (holds : g.ValuesIn heap) (read : g.inputValue? n pin = some v) : v.In heap := by
  obtain ⟨src, -, shown⟩ := bind_eq_some_iff.mp read
  exact holds.output? shown

lemma inputValues? (holds : g.ValuesIn heap) (read : g.inputValues? n = some vs) :
    AllIn heap vs := by
  rw [Graph.inputValues?] at read
  generalize n.inputs = inputs at read
  induction inputs generalizing vs with
  | nil =>
    cases read
    trivial
  | cons src inputs ih =>
    rw [List.mapM_cons] at read
    obtain ⟨v, first, read⟩ := bind_eq_some_iff.mp read
    obtain ⟨rest, isRest, eq⟩ := bind_eq_some_iff.mp read
    cases eq
    obtain ⟨src, -, shown⟩ := bind_eq_some_iff.mp first
    exact ⟨holds.output? shown, ih isRest⟩

end ValuesIn

lemma evaluate_tidy (holds : g.ValuesIn heap) (more : known.Within heap)
    (all : ms.All (Native.Tidy known)) (live : g.node? id = some n)
    (tidy : ∀ native, n.behavior = .op native → native.Tidy known) :
    Tidy heap (fun heap made => ∀ v, made = some v → v.In heap) (g.evaluate ms id n) := by
  have shown : ∀ {output : Option Value}, (∀ v, output = some v → v.In heap) →
      Tidy heap (fun heap made => ∀ v, made = some v → v.In heap) (pure output) := fun holds =>
    .pure fun _ within v eq => (holds v eq).mono within
  have nothing : Tidy heap (fun heap (made : Option Value) => ∀ v, made = some v → v.In heap)
      (pure none) := shown fun _ eq => by cases eq
  have made : ∀ {action : Action Value}, MakesTidy heap action →
      Tidy heap (fun heap made => ∀ v, made = some v → v.In heap) (do return some (← action)) := by
    intro action tidy
    refine tidy.bind fun v later within holds => .pure fun last within' v' eq => ?_
    cases eq
    exact holds.mono within'
  rw [evaluate]
  cases computes : n.behavior with
  | const v =>
    refine shown fun v' eq => ?_
    cases eq
    exact holds.constants id n.form v (form?_of_node? live) computes
  | param => exact shown fun v => holds.previews
  | loopBegin | loopEnd | pass | nested | switch => exact shown fun v => holds.inputValue?
  | pack =>
    dsimp only
    split
    next vs read => exact made (Store.pack_tidy (holds.inputValues? read))
    next => exact nothing
  | unpack i =>
    dsimp only
    split
    next whole read =>
      cases found : whole.element i with
      | error d => exact .fail d
      | ok element =>
        refine shown fun v eq => ?_
        cases eq
        exact (holds.inputValue? read).element found
    next => exact nothing
  | virtual names =>
    dsimp only
    split
    next args read =>
      cases resolved : ms.resolve names args with
      | error d => exact .fail d
      | ok found =>
        show Tidy heap _ (if found.1.isPure then do
          return some (← found.1.call found.2) else return none)
        split
        · exact made (all.resolve resolved heap found.2 more
            (Methods.resolve_in (holds.inputValues? read) resolved))
        · exact nothing
    next => exact nothing
  | op native =>
    dsimp only
    split
    next args _ read => exact made (tidy native computes heap args more (holds.inputValues? read))
    next => exact nothing
  | call => exact nothing

end Graph

/-- All values of a graph are in one heap that has what was known before. -/
def Coherent (known : Heap) (w : Workspace) : Prop :=
  ∃ heap : Heap, known.Within heap ∧ heap.Fits w.store ∧ w.graph.ValuesIn heap

namespace Coherent

variable {known : Heap} {w : Workspace} {id : Handle} {n : Node} {ms : Methods}

/-- A result that is taken for the output that is there differs from it at most in its buffers. -/
lemma alike (coherent : Coherent known w) (all : ms.All (Native.Tidy known))
    (live : w.graph.node? id = some n)
    (tidy : ∀ native, n.behavior = .op native → native.Tidy known)
    (isMade : ((w.graph.evaluate ms id n).run w.store).1 = .ok made)
    (eq : Graph.sameOutput n.output made) : Graph.OutputAlike n.output made := by
  obtain ⟨heap, more, fits, holds⟩ := coherent
  cases shown : n.output with
  | none =>
    rw [shown] at eq
    cases made with
    | none => exact .none
    | some => cases eq
  | some v =>
    rw [shown] at eq
    cases made with
    | none => cases eq
    | some v' =>
      rcases outcome : (w.graph.evaluate ms id n).run w.store with ⟨result, t⟩
      rw [outcome] at isMade
      obtain rfl : result = .ok (some v') := isMade
      obtain ⟨later, within, -, isIn⟩ :=
        (Graph.evaluate_tidy holds more all live tidy heap w.store (.refl _) fits).of_ok outcome
      exact .some (((holds.outputs live shown).mono within).alike (isIn v' rfl) eq)

end Coherent

end Blockflow
