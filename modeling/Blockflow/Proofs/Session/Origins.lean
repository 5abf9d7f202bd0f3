import Blockflow.Proofs.Session.Compilation

/-!
# The origin of programs

Sessions compile, run and forget programs. Whatever a host does with a session, every program that
it holds was compiled from the settled graph of a circuit of a conforming library.
-/

namespace Blockflow

open Compile

/-- What a host does with a session: apart from compiling, running and forgetting programs it makes
`Changes`, and it runs the programs of `Runs`. -/
inductive Session.Step (Changes : Session → Session → Prop) (Runs : Session → Program → Prop) :
    Session → Session → Prop where
  | change {s s' : Session} (changes : Changes s s') :
      Step Changes Runs s s'
  | compile (s : Session) (name : String) : Step Changes Runs s (s.compile name).2
  | invoke {m : Machine} {prog : Program} (runs : Runs m.session prog) (args : List Value) :
      Step Changes Runs m.session ((Machine.invoke prog args).run m).2.session
  | invalidate (s : Session) (name : String) : Step Changes Runs s (s.invalidate name)
  | invalidateAll (s : Session) : Step Changes Runs s s.invalidateAll

/-- What a host may change about a session in which circuits keep their meaning: the limits, and the
store as long as it only grows. -/
def KeepsMeaning (s s' : Session) : Prop :=
  s'.environment = s.environment ∧ s'.slots = s.slots ∧
    s.store.Extends s'.store

/-- Hosts run programs that a session has compiled. -/
def Holds (s : Session) (prog : Program) : Prop :=
  ∃ slot, s.slots.program? slot = some prog

/-- The program was compiled from this settled graph, in which natives have the property `P`. -/
def Origin (P : Native → Prop) (prog : Program) (g : Graph) (root : Root) : Prop :=
  ∃ (env : Environment) (limit : Nat) (name : String) (before after : Store) (slots : Slots),
    env.library.Conforms (.inner P) ∧ Settled env limit name before after g root ∧
      (Compile.compile g root slots).1 = .ok prog

namespace Slots

lemma program?_fill (slots : Slots) (slot : Nat) (prog : Program) (other : Nat) :
    (slots.fill slot prog).program? other =
      if other = slot ∧ slot < slots.programs.size then some prog else slots.program? other := by
  rw [program?, fill]
  by_cases eq : slot = other
  · subst eq
    by_cases inside : slot < slots.programs.size
    · simp [inside]
    · simp [inside, program?]
  · simp [eq, Ne.symm eq, program?]

lemma programs_invalidate (slots : Slots) (name : String) :
    (slots.invalidate name).programs = slots.programs := by
  have stale : ∀ fuel names (slots : Slots), (slots.eraseStale fuel names).programs =
      slots.programs := by
    intro fuel
    induction fuel with
    | zero => exact fun _ _ => rfl
    | succ fuel ih =>
      intro names slots
      cases names with
      | nil => rfl
      | cons name names =>
        rw [eraseStale]
        split
        · exact ih _ _
        · exact ih _ _
  exact stale _ _ _

end Slots

namespace Session

/-- The library conforms, and every program has an origin. -/
structure Stocked (P : Native → Prop) (s : Session) : Prop where
  conforms : s.library.Conforms (.inner P)
  programs : ∀ slot prog, s.slots.program? slot = some prog →
    ∃ g root, Origin P prog g root

namespace Stocked

variable {P : Native → Prop} {s after : Session} {name : String} {prog : Program}

lemma of_program? (stocked : s.Stocked P) (lib : after.library = s.library)
    (slots : ∀ slot, after.slots.program? slot = s.slots.program? slot) : after.Stocked P :=
  ⟨lib ▸ stocked.conforms, fun slot prog found =>
    stocked.programs slot prog ((slots slot).symm.trans found)⟩

lemma origin (stocked : s.Stocked P) (compiled : s.compileFresh name = (.ok prog, after)) :
    ∃ g root, Origin P prog g root := by
  obtain ⟨store, g, root, g', slots, settled, compiled, -⟩ := compileFresh_ok compiled
  exact ⟨g, root, s.environment, s.config.settleLimit, name, s.store, store,
    s.slots, stocked.conforms, settled, by rw [compiled]⟩

lemma compileFresh (stocked : s.Stocked P) (name : String) : (s.compileFresh name).2.Stocked P := by
  obtain ⟨store, slots, asked, eq⟩ := compileFresh_session s name
  rw [eq]
  exact stocked.of_program? rfl asked.program?

lemma compileSlot (stocked : s.Stocked P) (slot : Nat) (name : String) :
    (s.compileSlot slot name).2.Stocked P := by
  rcases outcome : s.compileSlot slot name with ⟨failure | prog, after⟩
  · have kept := stocked.compileFresh name
    rw [compileSlot_error outcome] at kept
    exact kept
  · rcases compileSlot_ok outcome with ⟨-, rfl⟩ | ⟨made, fresh, rfl⟩
    · exact stocked
    · have kept := stocked.compileFresh name
      rw [fresh] at kept
      refine ⟨kept.conforms, fun other found isProgram => ?_⟩
      rw [Slots.program?_fill] at isProgram
      split at isProgram
      · cases isProgram
        exact stocked.origin fresh
      · exact kept.programs other found isProgram

lemma slotOf (stocked : s.Stocked P) (name : String) : (s.slotOf name).2.Stocked P :=
  stocked.of_program? rfl fun slot => SlotsAsked.program? (.single ⟨name, rfl⟩) slot

lemma step (changes : ∀ {u t : Session}, u.Stocked P → Changes u t → t.Stocked P)
    (stocked : s.Stocked P)
    (step : Step Changes Runs s after) : after.Stocked P := by
  cases step with
  | change changed => exact changes stocked changed
  | compile _ name => exact (stocked.slotOf name).compileSlot _ name
  | @invoke m prog _ args =>
    have kept := Machine.invoke_keeps (P :=
      Stocked P) (fun _ _ stocked => stocked.of_program? rfl fun _ => rfl)
      (fun slot name _ stocked => stocked.compileSlot slot name) prog args m stocked
    rw [Effect.Ends] at kept
    rcases outcome : (Machine.invoke prog args).run m with ⟨d | v, m'⟩ <;>
      rw [outcome] at kept <;> exact kept
  | invalidate =>
    refine stocked.of_program? rfl fun slot => ?_
    rw [Slots.program?, Slots.program?, Session.invalidate, Slots.programs_invalidate]
  | invalidateAll => exact stocked.of_program? rfl fun _ => rfl

lemma compileSlot_origin (stocked : s.Stocked P)
    (compiled : s.compileSlot slot name = (.ok prog, after)) : ∃ g root, Origin P prog g root := by
  rcases compileSlot_ok compiled with ⟨found, -⟩ | ⟨made, fresh, -⟩
  · exact stocked.programs _ prog found
  · exact stocked.origin fresh

lemma compile (stocked : s.Stocked P) (compiled : s.compile name = (.ok prog, after)) :
    ∃ g root, Origin P prog g root :=
  (stocked.slotOf name).compileSlot_origin compiled

end Stocked

end Session

end Blockflow
