import Blockflow.Proofs.Compile.Account
import Blockflow.Proofs.Compile.Failures
import Blockflow.Proofs.Graph.Roots

/-!
# Compilation in a session

What compiling a circuit leaves in the session, and where programs come from: every program that a
session holds was compiled from the settled graph of a circuit.
-/

namespace Blockflow

open Compile Expand

namespace Session

variable {s after : Session} {name : String} {slot : Nat} {prog : Program}
  {failure : CompileFailure}

/-- The three ways to compile a circuit: it is refused, it settles and is compiled, or it settles
with problems. -/
lemma compileFresh_cases (s : Session) (name : String) :
    (∃ d w, (instantiate s.library name []).run { store := s.store } = (.error d, w) ∧
      s.compileFresh name =
        (.error ⟨name, [d]⟩, { s with store := w.store, compiles := s.compiles + 1 })) ∨
    ∃ root w settled, (instantiate s.library name []).run { store := s.store } = (.ok root, w) ∧
      (w.settle s.environment s.config.settleLimit).2 = settled ∧
      ((settled.graph.diagnostics.definitions = [] ∧ s.compileFresh name =
          ((Compile.compile settled.graph root s.slots).1.mapError fun d => ⟨name, [d]⟩,
            { s with
              store := settled.store
              slots := (Compile.compile settled.graph root s.slots).2.2
              compiles := s.compiles + 1 })) ∨
        ∃ first rest, settled.graph.diagnostics.definitions = first :: rest ∧ s.compileFresh name =
          (.error ⟨name, first :: rest⟩,
            { s with store := settled.store, compiles := s.compiles + 1 })) := by
  rw [compileFresh]
  rcases (instantiate s.library name []).run { store := s.store } with ⟨d | root, w⟩
  · exact .inl ⟨d, w, rfl, rfl⟩
  · refine .inr ⟨root, w, _, rfl, rfl, ?_⟩
    dsimp only
    split
    next sound => exact .inl ⟨sound, rfl⟩
    next problems =>
      obtain ⟨first, rest, found⟩ := List.exists_cons_of_ne_nil problems
      exact .inr ⟨first, rest, found, by rw [← found]; rfl⟩

/-- Compiling changes the store, the slots and the count of compilations, and only asks for
slots. -/
lemma compileFresh_session (s : Session) (name : String) : ∃ store slots, SlotsAsked s.slots slots ∧
      (s.compileFresh name).2 = { s with store, slots, compiles := s.compiles + 1 } := by
  rcases compileFresh_cases s name with
    ⟨_, w, -, eq⟩ | ⟨root, _, settled, -, -, ⟨-, eq⟩ | ⟨_, _, -, eq⟩⟩
  · exact ⟨w.store, s.slots, .refl, by rw [eq]⟩
  · exact ⟨settled.store, _, (compile_asks _ root s.slots).1, by rw [eq]⟩
  · exact ⟨settled.store, s.slots, .refl, by rw [eq]⟩

lemma compileFresh_ok (compiled : s.compileFresh name = (.ok prog, after)) :
    ∃ store g root g' slots,
      Settled s.environment s.config.settleLimit name s.store store g root ∧
      Compile.compile g root s.slots = (.ok prog, g', slots) ∧
      after = { s with store, slots, compiles := s.compiles + 1 } := by
  rcases compileFresh_cases s name with
    ⟨_, _, -, eq⟩ | ⟨root, w, settled, instantiated, reached, ⟨sound, eq⟩ | ⟨_, _, -, eq⟩⟩
  · cases eq.symm.trans compiled
  · obtain ⟨isProgram, isAfter⟩ := Prod.mk.inj (eq.symm.trans compiled)
    rcases outcome : Compile.compile settled.graph root s.slots with ⟨d | made, g', slots⟩ <;>
      rw [outcome] at isProgram isAfter <;> cases isProgram
    exact ⟨settled.store, settled.graph, root, g', slots, ⟨⟨w, instantiated, reached⟩, sound⟩,
      outcome, isAfter.symm⟩
  · cases eq.symm.trans compiled

lemma compileFresh_extends (conforms : s.library.Conforms (.inner Native.Pure))
    (arePure : s.methods.Pure) (name : String) : s.store.Extends (s.compileFresh name).2.store := by
  rcases compileFresh_cases s name with
    ⟨_, w, refused, eq⟩ | ⟨root, w, settled, instantiated, reached, ⟨-, eq⟩ | ⟨_, _, -, eq⟩⟩
  · have kept := instantiate_store s.library name [] { store := s.store }
    rw [refused] at kept
    rw [eq]
    exact .of_types (by rw [show w.store = s.store from kept])
  · rw [eq, ← reached]
    exact settle_extends s.environment conforms arePure instantiated _
  · rw [eq, ← reached]
    exact settle_extends s.environment conforms arePure instantiated _

lemma compileFresh_fails (conforms : s.library.Conforms (.inner P))
    (failed : s.compileFresh name = (.error failure, after)) : ¬OwnRead failure.diagnostic := by
  rintro ⟨⟨addr, problem⟩, -, unplaced, -⟩
  rcases compileFresh_cases s name with
    ⟨d, _, refused, eq⟩ | ⟨root, w, settled, instantiated, reached,
      ⟨-, eq⟩ | ⟨first, rest, found, eq⟩⟩
  · cases eq.symm.trans failed
    have known := instantiate_fails s.library name [] { store := s.store } d (by rw [refused])
    rcases known with ⟨_, known⟩ | ⟨_, _, known⟩ <;> cases problem.symm.trans known
  · rcases outcome : (Compile.compile settled.graph root s.slots).1 with d | made
    · rw [outcome] at eq
      cases eq.symm.trans failed
      have isRead : d.problem = .unwrittenRead addr := problem
      simpa [IsWiring, IsCrash, isRead] using (compile_asks _ root s.slots).2 d outcome
    · rw [outcome] at eq
      cases eq.symm.trans failed
  · cases eq.symm.trans failed
    obtain ⟨-, g, growing, -⟩ := instantiate_growing P instantiated
    have placed := (Workspace.growing_settling (.inner P) s.environment g).settle
      (EditRules.inner_expanding P) conforms s.config.settleLimit growing |>.placed
    rw [reached] at placed
    have mem : first ∈ settled.graph.diagnostics.definitions := found ▸ List.mem_cons_self
    rcases placed first (List.mem_filter.mp mem).1 with node | ⟨_, unsettled⟩
    · exact node unplaced
    · cases problem.symm.trans unsettled

/-! ## Slots -/

/-- A slot is filled by a program compiled for it, or was filled before. -/
lemma compileSlot_ok (compiled : s.compileSlot slot name = (.ok prog, after)) :
    (s.slots.program? slot = some prog ∧ after = s) ∨ ∃ made, s.compileFresh name =
      (.ok prog, made) ∧
        after = { made with slots := made.slots.fill slot prog } := by
  rw [compileSlot] at compiled
  split at compiled
  next found =>
    cases compiled
    exact .inl ⟨found, rfl⟩
  next =>
    split at compiled
    next made fresh =>
      cases compiled
      exact .inr ⟨made, fresh, rfl⟩
    next => cases compiled

lemma compile_ok (compiled : s.compile name = (.ok prog, after)) :
    ((s.slotOf name).2.slots.program? (s.slotOf name).1 = some prog ∧ after = (s.slotOf name).2) ∨
      ∃ made, (s.slotOf name).2.compileFresh name = (.ok prog, made) ∧
        after = { made with slots := made.slots.fill (s.slotOf name).1 prog } :=
  compileSlot_ok compiled

lemma compileSlot_error (failed : s.compileSlot slot name = (.error failure, after)) :
    s.compileFresh name = (.error failure, after) := by
  rw [compileSlot] at failed
  split at failed
  next => cases failed
  next =>
    split at failed
    next => cases failed
    next fresh =>
      cases failed
      exact fresh

end Session

end Blockflow
