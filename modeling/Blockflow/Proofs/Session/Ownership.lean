import Blockflow.Proofs.Compile.Programs
import Blockflow.Proofs.Session.Origins

/-!
# Who owns a slot

A slot is made for one circuit and serves no other, also after the circuit was forgotten: calls that
were compiled before go on using it. The owners of the slots are listed in the order in which the
slots were made, so the list only ever grows. A session is coherent if every program that it holds
was compiled from the circuit that owns its slot, and calls circuits by slots that these own.
-/

namespace Blockflow

open Compile List

lemma owner_mono (more : owners <+: owners') {slot : Nat} {name : String}
    (owner : owners[slot]? = some name) : owners'[slot]? = some name := by
  obtain ⟨rest, rfl⟩ := more
  rw [getElem?_append_left (lt_of_getElem? owner)]
  exact owner

/-- The slots have owners, and the known circuits have slots of their own. -/
structure Slots.OwnedBy (owners : List String) (slots : Slots) : Prop where
  size : owners.length = slots.programs.size
  names : ∀ {name slot}, slots.names.lookup name = some slot → owners[slot]? = some name

namespace Slots.OwnedBy

variable {owners : List String} {slots slots' : Slots}

lemma empty : OwnedBy [] {} := ⟨rfl, fun found => by cases found⟩

lemma slotOf (owned : OwnedBy owners slots) (name : String) :
    ∃ owners', owners <+: owners' ∧ OwnedBy owners' (slots.slotOf name).2 := by
  rw [Slots.slotOf]
  cases known : slots.names.lookup name with
  | some slot => exact ⟨owners, prefix_refl _, owned⟩
  | none =>
    refine ⟨owners ++ [name], prefix_append _ _, ?_, fun {other slot} found => ?_⟩
    · simp [owned.size]
    · -- the new name is the last one, and so is its slot
      rcases lookup_snoc_cases found with before | ⟨-, eq, rfl⟩
      · exact owner_mono (prefix_append _ _) (owned.names before)
      · rw [eq, ← owned.size, getElem?_append_right (Nat.le_refl _), Nat.sub_self]
        rfl

lemma asked (owned : OwnedBy owners slots) (asked : SlotsAsked slots slots') :
    ∃ owners', owners <+: owners' ∧ OwnedBy owners' slots' := by
  induction asked with
  | refl => exact ⟨owners, prefix_refl _, owned⟩
  | tail _ step ih =>
    obtain ⟨name, rfl⟩ := step
    obtain ⟨owners', more, owned'⟩ := ih
    obtain ⟨owners'', more', owned''⟩ := owned'.slotOf name
    exact ⟨owners'', more.trans more', owned''⟩

lemma fill (owned : OwnedBy owners slots) (slot : Nat) (prog : Program) :
    OwnedBy owners (slots.fill slot prog) :=
  ⟨by rw [owned.size, Slots.fill, Array.size_setIfInBounds], owned.names⟩

lemma forget (owned : OwnedBy owners slots) (programs : slots'.programs = slots.programs)
    (names : ∀ {name slot}, slots'.names.lookup name = some slot →
      slots.names.lookup name = some slot) :
    OwnedBy owners slots' := ⟨by rw [owned.size, programs], fun found => owned.names (names found)⟩

end Slots.OwnedBy

variable {env : Environment} {prog : Program} {g : Graph} {owners : List String}

/-- A circuit that is known after another one was forgotten was known before, with the same slot. -/
lemma Slots.lookup_of_invalidate {slots : Slots} {slot : Nat}
    (found : (slots.invalidate forgotten).names.lookup name = some slot) :
    slots.names.lookup name = some slot := by
  have stale : ∀ fuel names (slots : Slots), (slots.eraseStale fuel names).names.lookup name =
      some slot →
      slots.names.lookup name = some slot := by
    intro fuel
    induction fuel with
    | zero => exact fun _ _ found => found
    | succ fuel ih =>
      intro names slots found
      cases names with
      | nil => exact found
      | cons other names =>
        rw [eraseStale] at found
        split at found
        · exact ih _ _ found
        · have kept := ih _ _ found
          rw [Slots.erase, lookup_filter_ne] at kept
          split at kept
          · cases kept
          · exact kept
  exact stale _ _ _ found

abbrev Owns (owners : List String) (c : String) (slot : Nat) : Prop := owners[slot]? = some c

/-- The program was compiled from the settled graph of a circuit, whose types the store knows. -/
structure Made (env : Environment) (store : Store) (name : String) (prog : Program) (g : Graph)
    (root : Root) : Prop where
  settled : ∃ limit before after, Settled env limit name before after g root ∧ after.Extends store
  compiled : ∃ slots, (Compile.compile g root slots).1 = .ok prog

lemma Made.mono (made : Made env store name prog g root)
    (later : store.Extends store') : Made env store' name prog g root := by
  obtain ⟨limit, before, after, settled, known⟩ := made.settled
  exact ⟨⟨limit, before, after, settled, known.trans later⟩, made.compiled⟩

/-- The code of a program that calls circuits by slots that these own. -/
lemma Made.compiledFrom (made : Made env store name prog g root)
    (calls : CallsAmong (Owns owners) prog.code) :
    ∃ plan loops, CompiledFrom g root (Owns owners) prog plan loops := by
  obtain ⟨slots, compiled⟩ := made.compiled
  rcases outcome : compile g root slots with ⟨result, g', slots'⟩
  rw [outcome] at compiled
  obtain ⟨plan, loops, src, -⟩ := compile_compiledFrom (outcome.trans (by rw [← compiled]))
  exact ⟨plan, loops, src.rename calls⟩

lemma calls_mono {code : List Instruction} (more : owners <+: owners')
    (calls : CallsAmong (Owns owners) code) :
    CallsAmong (Owns owners') code :=
  calls.imp fun _ _ => owner_mono more

namespace Session

/-- Every program was compiled from the circuit that owns its slot, and calls circuits by their own
slots. -/
structure Coherent (env : Environment) (owners : List String) (s : Session) : Prop where
  environment : s.environment = env
  owned : s.slots.OwnedBy owners
  programs : ∀ slot prog, s.slots.program? slot = some prog →
    ∃ name g root, owners[slot]? = some name ∧ Made env s.store name prog g root ∧
      CallsAmong (Owns owners) prog.code

namespace Coherent

variable {env : Environment} {owners owners' : List String} {s after : Session} {name : String}
  {slot : Nat} {prog : Program}

lemma empty (env : Environment) (unfilled : s.slots = {}) (eq : s.environment = env) :
    s.Coherent env [] where
  environment := eq
  owned := unfilled ▸ .empty
  programs slot prog found := by
    rw [unfilled] at found
    cases found

lemma of_program? (coherent : s.Coherent env owners) (environment : after.environment = env)
    (owned : after.slots.OwnedBy owners') (more : owners <+: owners')
    (later : s.store.Extends after.store)
    (programs : ∀ slot, after.slots.program? slot = s.slots.program? slot) :
    after.Coherent env owners' where
  environment := environment
  owned := owned
  programs slot prog found := by
    obtain ⟨name, g, root, owner, made, calls⟩ :=
      coherent.programs slot prog ((programs slot).symm.trans found)
    exact ⟨name, g, root, owner_mono more owner, made.mono later, calls_mono more calls⟩

lemma store (coherent : s.Coherent env owners) {store : Store}
    (later : s.store.Extends store) : ({ s with store } : Session).Coherent env owners :=
  coherent.of_program? coherent.environment coherent.owned (prefix_refl _) later fun _ => rfl

lemma slotOf (coherent : s.Coherent env owners) (name : String) :
    ∃ owners', owners <+: owners' ∧ (s.slotOf name).2.Coherent env owners' ∧
      owners'[(s.slotOf name).1]? = some name := by
  have asked : SlotsAsked s.slots (s.slots.slotOf name).2 := .single ⟨name, rfl⟩
  obtain ⟨owners', more, owned⟩ := coherent.owned.asked asked
  refine ⟨owners', more, ?_, owned.names (slotOf_lookup s.slots name)⟩
  exact coherent.of_program? coherent.environment owned more (.refl _) asked.program?

variable (conforms : env.library.Conforms (.inner Native.Pure)) (arePure : env.methods.Pure)

include conforms arePure

lemma compileFresh (coherent : s.Coherent env owners) (name : String) :
    ∃ owners', owners <+: owners' ∧ (s.compileFresh name).2.Coherent env owners' ∧
      s.store.Extends (s.compileFresh name).2.store ∧
      ∀ prog, (s.compileFresh name).1 = .ok prog →
      (∃ g root, Made env (s.compileFresh name).2.store name prog g root) ∧
          CallsAmong (Owns owners') prog.code := by
  obtain rfl := coherent.environment
  have extended := compileFresh_extends conforms arePure name
  obtain ⟨store, slots, asked, eq⟩ := compileFresh_session s name
  obtain ⟨owners', more, owned⟩ := coherent.owned.asked asked
  rw [eq] at extended ⊢
  refine ⟨owners', more, coherent.of_program? rfl owned more extended asked.program?, extended, ?_⟩
  intro prog compiled
  have fresh : s.compileFresh name = (.ok prog, (s.compileFresh name).2) := Prod.ext compiled rfl
  obtain ⟨store', g, root, g', slots', settled, made, left⟩ := compileFresh_ok fresh
  obtain ⟨plan, loops, src, -⟩ := compile_compiledFrom made
  cases eq.symm.trans left
  exact ⟨⟨g, root, ⟨_, _, _, settled, .refl _⟩, _, congrArg Prod.fst made⟩,
    fun c slot ins out occurs => owned.names (src.calls c slot ins out occurs).1⟩

lemma compileSlot (coherent : s.Coherent env owners) (owner : owners[slot]? = some name) :
    ∃ owners', owners <+: owners' ∧ (s.compileSlot slot name).2.Coherent env owners' ∧
      s.store.Extends (s.compileSlot slot name).2.store ∧
      ∀ prog, (s.compileSlot slot name).1 = .ok prog →
        (∃ g root, Made env (s.compileSlot slot name).2.store name prog g root) ∧
          CallsAmong (Owns owners') prog.code := by
  obtain ⟨owners', more, kept, extended, fresh⟩ := coherent.compileFresh conforms arePure name
  rcases outcome : s.compileSlot slot name with ⟨failure | prog, after⟩
  · rw [compileSlot_error outcome] at kept extended
    exact ⟨owners', more, kept, extended, fun _ isOk => by cases isOk⟩
  · rcases compileSlot_ok outcome with ⟨found, rfl⟩ | ⟨made, compiled, rfl⟩
    · refine ⟨owners, prefix_refl _, coherent, .refl _, fun prog' isOk => ?_⟩
      cases isOk
      obtain ⟨name', g, root, owner', made, calls⟩ := coherent.programs slot prog found
      cases owner.symm.trans owner'
      exact ⟨⟨g, root, made⟩, calls⟩
    · rw [compiled] at kept extended fresh
      obtain ⟨⟨g, root, isMade⟩, calls⟩ := fresh prog rfl
      refine ⟨owners', more, ⟨kept.environment, kept.owned.fill slot prog, ?_⟩, extended, ?_⟩
      · intro other found isProgram
        rw [Slots.program?_fill] at isProgram
        split at isProgram
        next same =>
          cases isProgram
          exact ⟨name, g, root, same.1 ▸ owner_mono more owner, isMade, calls⟩
        next => exact kept.programs other found isProgram
      · intro prog' isOk
        cases isOk
        exact ⟨⟨g, root, isMade⟩, calls⟩

lemma compile (coherent : s.Coherent env owners) (name : String) :
    ∃ owners', owners <+: owners' ∧ (s.compile name).2.Coherent env owners' ∧
    s.store.Extends (s.compile name).2.store ∧
      ∀ prog, (s.compile name).1 = .ok prog →
      (∃ g root, Made env (s.compile name).2.store name prog g root) ∧
          CallsAmong (Owns owners') prog.code := by
  obtain ⟨owners', more, known, owner⟩ := coherent.slotOf name
  obtain ⟨owners'', more', kept⟩ := known.compileSlot conforms arePure owner
  exact ⟨owners'', more.trans more', kept⟩

end Coherent

end Session

end Blockflow
